import VMForge.Base.Overlay
import VMForge.Base.IpText
import VMForge.Base.OptionText
import VMForge.Base.Shell
import VMForge.Base.TextLines
import VMForge.Base.TreeText
import VMForge.Base.JsonText.RoundTrip
import VMForge.Storage.Restore.Forest
import VMForge.Storage.Store.Tree
import VMForge.Storage.Store.Contraction
import VMForge.Storage.Store.Frozen
import VMForge.Storage.Store.Atomic
import VMForge.Storage.Store.Valid
import VMForge.Storage.Store.Independence
import VMForge.Storage.Cli.Requests
import VMForge.Storage.Restore.Frozen
import VMForge.Storage.Restore.RoundTrip
import VMForge.Storage.Restore.Tampered
import VMForge.Storage.Backup.Closed
import VMForge.Core.Lineage
import VMForge.Core.Forwards
import VMForge.Core.Names
import VMForge.Core.SubprocessStore
import VMForge.Core.StorageProvider
import VMForge.Core.StorageProvider.Runs
import VMForge.Core.StorageProvider.Errors
import VMForge.Core.Net.Nic
import VMForge.Engine.CommandLine
import VMForge.Backend.Hvf.Lifecycle
import VMForge.Backend.Hvf.Aimed
import VMForge.Backend.Hvf.Tops
import VMForge.Backend.Hvf.RunState
import VMForge.Backend.Hvf.FailedRestore
import VMForge.Backend.Hvf.Fresh
import VMForge.Backend.Hvf.Resume
import VMForge.Backend.Hvf.Files
import VMForge.Backend.Hvf.StateFile
import VMForge.Backend.Hvf.Graph
import VMForge.Engine.Qmp.Replies
import VMForge.Engine.Qmp.Unread
import VMForge.Guest.Responses
import VMForge.Guest.Polling
import VMForge.Guest.Codes
import VMForge.Guest.Channel.Own
import VMForge.Cli.Net
import VMForge.Cli.Redact.Keys
import VMForge.Cli.Redact.Credentials
import VMForge.Cli.Redact.LongTokens
import VMForge.Cli.Redact.Pem
import VMForge.Cli.Redact.Passes
import VMForge.Cli.Diagnose.Logs
import VMForge.Cli.Tarball.RoundTrip
import VMForge.Base.Calendar
import VMForge.Cli.Diagnose.Timestamp
import VMForge.Cli.Diagnose.Tail
import VMForge.Base.Slices
import VMForge.Cli.Redact.Slices
import VMForge.Cli.Diagnose.Bundle
import VMForge.Core.Layout
