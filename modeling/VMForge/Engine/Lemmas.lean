import VMForge.Engine.Vm

namespace VMForge.Engine

open VMForge.Core Exec

variable {ρ : Type} {site : Site ρ} {env : Env ρ} {s s' : Session ρ}

-- A name below a directory is one more component of its path.
theorem locate_join (site : Site ρ) (dir : String) {n : String}
    (hn : Path.isComponent n = true) :
    site.locate (join dir n) = site.locate dir ++ [n] := by
  obtain ⟨hne, -, hdots, hslash, -⟩ := (Path.isComponent_iff n).mp hn
  have habs : Path.isAbsolute n = false := by
    unfold Path.isAbsolute
    cases hl : n.toList with
    | nil => rfl
    | cons c cs =>
        have hc : c ≠ '/' := by
          rintro rfl
          simp [hl] at hslash
        simp [hc]
  by_cases hdir : dir = ""
  · have hjoin : join dir n = n := by simp [join, habs, hdir]
    rw [hjoin, hdir]
    have hempty : Path.isAbsolute "" = false := by decide
    have hparts : Path.parts "" = [] := by decide
    exact Path.ofString_concat (habs.trans hempty.symm)
      (by rw [hparts, Path.parts_of_isComponent hn, List.nil_append]) hdots
  · by_cases hend : dir.toList.getLast? = some '/'
    · have hjoin : join dir n = dir ++ n := by simp [join, habs, hend]
      obtain ⟨cs, hcs⟩ : ∃ cs, dir.toList = cs ++ ['/'] :=
        ⟨_, (List.dropLast_append_getLast? _ hend).symm⟩
      have hd : dir = String.ofList cs ++ "/" := by
        apply String.toList_inj.mp
        simp [hcs]
      rw [hjoin]
      refine Path.ofString_concat ?_ ?_ hdots
      · unfold Path.isAbsolute
        cases cs <;> simp [hcs]
      · rw [hd, Path.parts_concat _ hn, Path.parts_append_sep]
    · have hjoin : join dir n = dir ++ "/" ++ n := by simp [join, habs, hdir, hend]
      rw [hjoin]
      refine Path.ofString_concat ?_ (Path.parts_concat dir hn) hdots
      unfold Path.isAbsolute
      cases hl : dir.toList with
      | nil => exact absurd (String.toList_inj.mp hl) hdir
      | cons c cs => simp [hl]

@[simp] theorem World.note_files (w : World ρ) (e : Event ρ) : (w.note e).files = w.files := rfl

theorem World.put_files_of_ne (w : World ρ) {p q : Path} (x : Item ρ) (h : q ≠ p) :
    (w.put p x).files q = w.files q := by
  simp [put, h]

@[simp] theorem World.put_files_self (w : World ρ) (p : Path) (x : Item ρ) :
    (w.put p x).files p = some x := by
  simp [put]

@[simp] theorem World.poke_log (w : World ρ) (p : Path) (o : Nat) (b : UInt8) :
    (w.poke p o b).log = w.log := by
  unfold poke
  split
  · split <;> rfl
  · rfl

theorem World.poke_files_of_ne (w : World ρ) {p q : Path} (o : Nat) (b : UInt8) (h : q ≠ p) :
    (w.poke p o b).files q = w.files q := by
  unfold poke
  split
  · split
    · exact w.put_files_of_ne _ h
    · rfl
  · rfl

-- A byte is only ever written where there is a layer, and a layer it stays.
theorem World.poke_files_none (w : World ρ) {p q : Path} (o : Nat) (b : UInt8) :
    (w.poke p o b).files q = none ↔ w.files q = none := by
  by_cases h : q = p
  · subst h
    unfold poke
    split
    · rename_i l hl
      have hsome : w.files q ≠ none := by
        intro hn
        simp [Files.layer, hn] at hl
      split
      · simp [hsome]
      · rfl
    · rfl
  · rw [w.poke_files_of_ne o b h]

-- What a process does of its own accord.
section Acts

@[simp] theorem Session.act_disks (a : Act ρ) : (s.act site a).qemu.disks = s.qemu.disks := by
  cases a <;> simp only [act] <;> (try split) <;> (try split) <;> rfl

@[simp] theorem Session.act_runState (a : Act ρ) :
    (s.act site a).qemu.runState = s.qemu.runState := by
  cases a <;> simp only [act] <;> (try split) <;> (try split) <;> rfl

@[simp] theorem Session.act_migration (a : Act ρ) :
    (s.act site a).qemu.migration = s.qemu.migration := by
  cases a <;> simp only [act] <;> (try split) <;> (try split) <;> rfl

@[simp] theorem Session.act_unread (a : Act ρ) : (s.act site a).qemu.unread = s.qemu.unread := by
  cases a <;> simp only [act] <;> (try split) <;> (try split) <;> rfl

@[simp] theorem Session.act_log (a : Act ρ) : (s.act site a).world.log = s.world.log := by
  cases a <;> simp only [act] <;> (try split) <;> (try split) <;>
    first | rfl | exact World.poke_log ..

theorem Session.act_dead (a : Act ρ) (h : s.qemu.alive = false) :
    (s.act site a).qemu.alive = false := by
  cases a <;> simp [act, h]

theorem Session.act_halted (a : Act ρ) (h : s.qemu.vcpusRunning = false) :
    (s.act site a).world = s.world ∧ (s.act site a).qemu.ram = s.qemu.ram := by
  cases a <;> simp [act, h]

theorem Session.act_files (a : Act ρ) {p : Path}
    (h : ∀ file ∈ s.qemu.tops, site.locate file ≠ p) :
    (s.act site a).world.files p = s.world.files p := by
  cases a with
  | write disk offset byte =>
      simp only [act]
      split
      · split
        · rename_i file hfile
          exact World.poke_files_of_ne _ _ _ (Ne.symm (h file (List.mem_of_getElem? hfile)))
        · rfl
      · rfl
  | ram state => simp only [act]; split <;> rfl
  | exit => rfl

theorem Session.act_files_none (a : Act ρ) (p : Path) :
    (s.act site a).world.files p = none ↔ s.world.files p = none := by
  cases a with
  | write disk offset byte =>
      simp only [act]
      split
      · split
        · exact World.poke_files_none _ _ _
        · rfl
      · rfl
  | ram state => simp only [act]; split <;> rfl
  | exit => rfl

-- What every act keeps, all of them keep.
theorem Session.during_keeps (site : Site ρ) {R : Session ρ → Session ρ → Prop} (hrefl : ∀ s, R s s)
    (htrans : ∀ s s' s'', R s s' → R s' s'' → R s s'')
    (hact : ∀ s a, R s (Session.act site s a)) (s : Session ρ) (acts : List (Act ρ)) :
    R s (s.during site acts) := by
  induction acts generalizing s with
  | nil => exact hrefl s
  | cons a acts ih => exact htrans _ _ _ (hact s a) (ih _)

variable (site)

@[simp] theorem Session.during_disks (s : Session ρ) (acts : List (Act ρ)) :
    (s.during site acts).qemu.disks = s.qemu.disks :=
  during_keeps site (R := fun s s' => s'.qemu.disks = s.qemu.disks) (fun _ => rfl)
    (fun _ _ _ h h' => h'.trans h) (fun _ a => act_disks a) s acts

@[simp] theorem Session.during_runState (s : Session ρ) (acts : List (Act ρ)) :
    (s.during site acts).qemu.runState = s.qemu.runState :=
  during_keeps site (R := fun s s' => s'.qemu.runState = s.qemu.runState) (fun _ => rfl)
    (fun _ _ _ h h' => h'.trans h) (fun _ a => act_runState a) s acts

@[simp] theorem Session.during_migration (s : Session ρ) (acts : List (Act ρ)) :
    (s.during site acts).qemu.migration = s.qemu.migration :=
  during_keeps site (R := fun s s' => s'.qemu.migration = s.qemu.migration) (fun _ => rfl)
    (fun _ _ _ h h' => h'.trans h) (fun _ a => act_migration a) s acts

@[simp] theorem Session.during_unread (s : Session ρ) (acts : List (Act ρ)) :
    (s.during site acts).qemu.unread = s.qemu.unread :=
  during_keeps site (R := fun s s' => s'.qemu.unread = s.qemu.unread) (fun _ => rfl)
    (fun _ _ _ h h' => h'.trans h) (fun _ a => act_unread a) s acts

@[simp] theorem Session.during_log (s : Session ρ) (acts : List (Act ρ)) :
    (s.during site acts).world.log = s.world.log :=
  during_keeps site (R := fun s s' => s'.world.log = s.world.log) (fun _ => rfl)
    (fun _ _ _ h h' => h'.trans h) (fun _ a => act_log a) s acts

@[simp] theorem Session.during_tops (s : Session ρ) (acts : List (Act ρ)) :
    (s.during site acts).qemu.tops = s.qemu.tops := by
  simp [Qemu.tops]

@[simp] theorem Session.during_vcpusRunning (s : Session ρ) (acts : List (Act ρ)) :
    (s.during site acts).qemu.vcpusRunning = s.qemu.vcpusRunning := by
  simp [Qemu.vcpusRunning]

theorem Session.during_dead (acts : List (Act ρ)) (h : s.qemu.alive = false) :
    (s.during site acts).qemu.alive = false :=
  during_keeps site (R := fun s s' => s.qemu.alive = false → s'.qemu.alive = false)
    (fun _ h => h) (fun _ _ _ h h' hd => h' (h hd)) (fun _ a hd => act_dead a hd) s acts h

-- A halted guest changes nothing.
theorem Session.during_halted (acts : List (Act ρ)) (h : s.qemu.vcpusRunning = false) :
    (s.during site acts).world = s.world ∧ (s.during site acts).qemu.ram = s.qemu.ram := by
  have hkeeps := during_keeps site
    (R := fun s s' => s.qemu.vcpusRunning = false →
      s'.qemu.vcpusRunning = false ∧ s'.world = s.world ∧ s'.qemu.ram = s.qemu.ram)
    (fun _ h => ⟨h, rfl, rfl⟩) ?_ ?_ s acts h
  · exact hkeeps.2
  · intro s s' s'' h₁ h₂ hs
    obtain ⟨hs', hw, hr⟩ := h₁ hs
    obtain ⟨hs'', hw', hr'⟩ := h₂ hs'
    exact ⟨hs'', hw'.trans hw, hr'.trans hr⟩
  · intro s a hs
    exact ⟨by simpa [Qemu.vcpusRunning] using hs, act_halted a hs⟩

theorem Session.during_files_none (s : Session ρ) (acts : List (Act ρ)) (p : Path) :
    (s.during site acts).world.files p = none ↔ s.world.files p = none :=
  during_keeps site (R := fun s s' => (s'.world.files p = none ↔ s.world.files p = none))
    (fun _ => Iff.rfl) (fun _ _ _ h h' => h'.trans h) (fun _ a => act_files_none a p) s acts

end Acts

section Issue

variable (site env) (step : Step) (c : Command) (s : Session ρ)

@[simp] theorem issue_disks : (QemuVm.issue site env step c s).qemu.disks = s.qemu.disks :=
  s.during_disks site _

@[simp] theorem issue_runState :
    (QemuVm.issue site env step c s).qemu.runState = s.qemu.runState :=
  s.during_runState site _

@[simp] theorem issue_vcpusRunning :
    (QemuVm.issue site env step c s).qemu.vcpusRunning = s.qemu.vcpusRunning :=
  s.during_vcpusRunning site _

@[simp] theorem issue_migration :
    (QemuVm.issue site env step c s).qemu.migration = s.qemu.migration :=
  s.during_migration site _

@[simp] theorem issue_unread :
    (QemuVm.issue site env step c s).qemu.unread = s.qemu.unread :=
  s.during_unread site _

theorem issue_log : (QemuVm.issue site env step c s).world.log = s.world.log ++
    [.command step c (s.during site (env.acts step)).qemu
      (s.during site (env.acts step)).world.files] := by
  simp [QemuVm.issue, World.note]

theorem issue_files :
    (QemuVm.issue site env step c s).world.files = (s.during site (env.acts step)).world.files :=
  rfl

end Issue

@[simp] theorem Session.setUnread_disks (s : Session ρ) (us : List QmpReply) :
    (s.setUnread us).qemu.disks = s.qemu.disks := rfl

@[simp] theorem Session.setUnread_runState (s : Session ρ) (us : List QmpReply) :
    (s.setUnread us).qemu.runState = s.qemu.runState := rfl

@[simp] theorem Session.setUnread_vcpusRunning (s : Session ρ) (us : List QmpReply) :
    (s.setUnread us).qemu.vcpusRunning = s.qemu.vcpusRunning := rfl

@[simp] theorem Session.setUnread_migration (s : Session ρ) (us : List QmpReply) :
    (s.setUnread us).qemu.migration = s.qemu.migration := rfl

@[simp] theorem Session.setUnread_ram (s : Session ρ) (us : List QmpReply) :
    (s.setUnread us).qemu.ram = s.qemu.ram := rfl

@[simp] theorem Session.setUnread_alive (s : Session ρ) (us : List QmpReply) :
    (s.setUnread us).qemu.alive = s.qemu.alive := rfl

@[simp] theorem Session.setUnread_world (s : Session ρ) (us : List QmpReply) :
    (s.setUnread us).world = s.world := rfl

-- No command reads or writes the replies to others.
theorem carryOut_unread {c : Command} (h : s.carryOut site c = some s') :
    s'.qemu.unread = s.qemu.unread := by
  cases c with
  | blockdevSnapshotSync node file snap =>
      simp only [Session.carryOut] at h
      split at h
      · cases h
      · cases h
        rfl
  | cont | queryStatus | queryMigrate | quit =>
      cases h
      rfl
  | stop =>
      simp only [Session.carryOut] at h
      split at h <;> (cases h; rfl)
  | migrate stateFile =>
      simp only [Session.carryOut] at h
      split at h
      · cases h
      · cases h
        rfl
  | migrateIncoming stateFile =>
      simp only [Session.carryOut] at h
      split at h
      · cases h
        rfl
      · cases h

-- Whatever the client reads, QEMU has carried the command out or left everything as it was.
theorem execute_reaches (site : Site ρ) (env : Env ρ) (step : Step) (c : Command) (s : Session ρ) :
    ∃ t us, (t = QemuVm.issue site env step c s ∨
        (QemuVm.issue site env step c s).carryOut site c = some t) ∧
      (QemuVm.execute site env step c s).2 = t.setUnread us := by
  unfold QemuVm.execute
  by_cases halive : (QemuVm.issue site env step c s).qemu.alive = true
  · simp only [halive, if_true]
    refine ⟨_, _, ?_, rfl⟩
    unfold QemuVm.respond
    split
    · rename_i s' _ hdo
      exact Or.inr hdo
    · exact Or.inl rfl
  · simp only [halive]
    exact ⟨_, (QemuVm.issue site env step c s).qemu.unread, Or.inl rfl, rfl⟩

theorem order_reaches (site : Site ρ) (env : Env ρ) (step : Step) (c : Command) (s : Session ρ) :
    ∃ t us, (t = QemuVm.issue site env step c s ∨
        (QemuVm.issue site env step c s).carryOut site c = some t) ∧
      (QemuVm.order site env step c s).2 = t.setUnread us := by
  have hreaches := execute_reaches site env step c s
  unfold QemuVm.order
  rcases hx : QemuVm.execute site env step c s with ⟨e | status, t⟩
  · rw [hx] at hreaches
    rw [bind_of_error hx]
    exact hreaches
  · rw [hx] at hreaches
    rw [bind_of_ok hx]
    exact hreaches

theorem respond_done {step : Step} {c : Command} (hacts : (env.answer step).acts = true)
    (hdo : s.carryOut site c = some s') :
    QemuVm.respond site env step c s = (.returns (s'.qemu.status c), s') := by
  simp only [QemuVm.respond, hacts, hdo]

theorem respond_refused {step : Step} {c : Command}
    (h : (env.answer step).acts = false ∨ s.carryOut site c = none) :
    QemuVm.respond site env step c s = (.error (env.why step), s) := by
  unfold QemuVm.respond
  split
  · rename_i hacts hdo
    obtain hidle | hnone := h
    · rw [hidle] at hacts
      cases hacts
    · rw [hnone] at hdo
      cases hdo
  · rfl

-- All that can come of a command when no earlier reply is left to read. The caller makes `f` of
-- what it returns.
inductive Executed (site : Site ρ) (env : Env ρ) (step : Step) (c : Command) {α : Type}
    (f : String → α) (s : Session ρ) : Except HvError α → Session ρ → Prop where
  | done (s' : Session ρ) (halive : (QemuVm.issue site env step c s).qemu.alive = true)
      (hanswer : env.answer step = .done)
      (hdo : (QemuVm.issue site env step c s).carryOut site c = some s')
      (hread : s'.qemu.unread = []) :
      Executed site env step c f s (.ok (f (s'.qemu.status c))) s'
  | lost (e : HvError) (s' : Session ρ) (us : List QmpReply)
      (halive : (QemuVm.issue site env step c s).qemu.alive = true)
      (hanswer : env.answer step = .lost)
      (hdo : (QemuVm.issue site env step c s).carryOut site c = some s') :
      Executed site env step c f s (.error e) (s'.setUnread us)
  | refused (e : HvError) (us : List QmpReply)
      (hwhy : (QemuVm.issue site env step c s).qemu.alive = true →
        (env.answer step).acts = false ∨
          (QemuVm.issue site env step c s).carryOut site c = none) :
      Executed site env step c f s (.error e) ((QemuVm.issue site env step c s).setUnread us)

theorem execute_spec (site : Site ρ) (env : Env ρ) (step : Step) (c : Command)
    (hread : s.qemu.unread = []) :
    Executed site env step c id s (QemuVm.execute site env step c s).1
      (QemuVm.execute site env step c s).2 := by
  unfold QemuVm.execute
  by_cases halive : (QemuVm.issue site env step c s).qemu.alive = true
  · simp only [halive, if_true]
    have hunread : (QemuVm.issue site env step c s).qemu.unread = [] :=
      (issue_unread site env step c s).trans hread
    by_cases h : (env.answer step).acts = false ∨
        (QemuVm.issue site env step c s).carryOut site c = none
    · rw [respond_refused h]
      simp only [hunread, List.nil_append]
      split
      · exact .refused _ _ fun _ => h
      · exact .refused _ _ fun _ => h
    · obtain ⟨hacts, hcan⟩ := not_or.mp h
      obtain ⟨s', hdo⟩ := Option.ne_none_iff_exists'.mp hcan
      have hunread' : s'.qemu.unread = [] := (carryOut_unread hdo).trans hunread
      rw [respond_done (Bool.not_eq_false _ ▸ hacts) hdo]
      simp only [hunread', List.nil_append]
      cases hanswer : env.answer step with
      | done =>
          have hback : s'.setUnread [] = s' := by
            rw [← hunread']
            rfl
          show Executed site env step c id s (.ok (s'.qemu.status c)) (s'.setUnread [])
          rw [hback]
          exact .done s' halive hanswer hdo hunread'
      | lost => exact .lost _ s' _ halive hanswer hdo
      | refused | missed =>
          rw [hanswer] at hacts
          exact absurd rfl hacts
  · simp only [halive]
    exact .refused _ (QemuVm.issue site env step c s).qemu.unread fun h => absurd h halive

theorem execute_cases {step : Step} {c : Command} {r : Except HvError String}
    (hread : s.qemu.unread = []) (h : QemuVm.execute site env step c s = (r, s')) :
    Executed site env step c id s r s' := by
  have hspec := execute_spec site env step c hread
  rwa [h] at hspec

theorem order_cases {step : Step} {c : Command} {r : Except HvError Unit}
    (hread : s.qemu.unread = []) (h : QemuVm.order site env step c s = (r, s')) :
    Executed site env step c (fun _ => ()) s r s' := by
  unfold QemuVm.order at h
  cases hx : QemuVm.execute site env step c s with
  | mk rx sx =>
      cases execute_cases hread hx with
      | done _ halive hanswer hdo hread' =>
          rw [bind_of_ok hx] at h
          cases h
          exact .done _ halive hanswer hdo hread'
      | lost e _ us halive hanswer hdo =>
          rw [bind_of_error hx] at h
          cases h
          exact .lost e _ us halive hanswer hdo
      | refused e us hwhy =>
          rw [bind_of_error hx] at h
          cases h
          exact .refused e us hwhy

-- A computation that returns has read the replies to all its commands.
def Hears {α : Type} (x : Exec (Session ρ) HvError α) : Prop :=
  ∀ {s s' : Session ρ} {a : α}, s.qemu.unread = [] → x s = (.ok a, s') → s'.qemu.unread = []

section Hearing

variable {α γ : Type}

theorem hears_execute {step : Step} {c : Command} : Hears (QemuVm.execute site env step c) := by
  intro s s' a hread h
  cases execute_cases hread h with
  | done _ _ _ _ hread' => exact hread'

theorem hears_pure (a : α) : Hears (pure a : Exec (Session ρ) HvError α) := by
  intro s s' b hread h
  obtain ⟨-, rfl⟩ := pure_eq_ok.mp h
  exact hread

theorem hears_bind {x : Exec (Session ρ) HvError α} {f : α → Exec (Session ρ) HvError γ}
    (hx : Hears x) (hf : ∀ a, Hears (f a)) : Hears (x >>= f) := by
  intro s s' b hread h
  obtain ⟨a, t, hfirst, hrest⟩ := bind_eq_ok.mp h
  exact hf a (hx hread hfirst) hrest

theorem hears_runIf {c : Bool} {x : Exec (Session ρ) HvError Unit} (hx : Hears x) :
    Hears (runIf c x) := by
  cases c with
  | false => exact hears_pure ()
  | true => exact hx

theorem hears_mapEach {as : List γ} {body : γ → Exec (Session ρ) HvError α}
    (hbody : ∀ a, Hears (body a)) : Hears (mapEach as body) := by
  induction as with
  | nil => exact hears_pure []
  | cons a as ih =>
      rw [mapEach_cons]
      exact hears_bind (hbody a) fun b => hears_bind ih fun bs => hears_pure (b :: bs)

theorem hears_raise (e : HvError) : Hears (raise e : Exec (Session ρ) HvError α) := by
  intro s s' a _ h
  cases h

theorem hears_ofExcept (x : Except HvError α) : Hears (ofExcept x : Exec (Session ρ) HvError α) := by
  cases x with
  | ok a => exact hears_pure a
  | error e => exact hears_raise e

theorem hears_order {step : Step} {c : Command} : Hears (QemuVm.order site env step c) :=
  hears_bind hears_execute fun _ => hears_pure ()

theorem endMigration_unread (site : Site ρ) (s : Session ρ) (p : Poll) :
    (s.endMigration site p).qemu.unread = s.qemu.unread := by
  unfold Session.endMigration
  split <;> rfl

theorem load_unread (site : Site ρ) (s : Session ρ) (f : String) (l : Load) :
    (s.load site f l).qemu.unread = s.qemu.unread := by
  cases l with
  | loading | failed => rfl
  | loaded =>
      simp only [Session.load]
      split <;> rfl

theorem hears_waitMigration (polls : List Poll) (poll : Nat) :
    Hears (QemuVm.waitMigration site env polls poll) := by
  induction polls generalizing poll with
  | nil =>
      refine hears_bind hears_execute fun status => ?_
      split
      · exact hears_ofExcept _
      · exact hears_raise _
  | cons p polls ih =>
      intro s s' u hread h
      refine hears_bind hears_execute (fun status => ?_)
        ((endMigration_unread site s p).trans hread) h
      split
      · exact hears_ofExcept _
      · exact ih (poll + 1)

theorem hears_waitIncoming (stateFile : String) (loads : List Load) (poll : Nat) :
    Hears (QemuVm.waitIncoming site env stateFile loads poll) := by
  induction loads generalizing poll with
  | nil =>
      refine hears_bind hears_execute fun status => ?_
      split
      · exact hears_ofExcept _
      · exact hears_raise _
  | cons l loads ih =>
      intro s s' u hread h
      refine hears_bind hears_execute (fun status => ?_)
        ((load_unread site s stateFile l).trans hread) h
      split
      · exact hears_ofExcept _
      · exact ih (poll + 1)

theorem hears_restoreIncoming {stateFile : String} :
    Hears (QemuVm.restoreIncoming site env stateFile) :=
  hears_bind hears_order fun _ => hears_waitIncoming _ _ _

end Hearing

-- A reply that is left unread stays unread: each command adds one, and takes one at most.
def Piles (s s' : Session ρ) : Prop := s'.qemu.unread = [] → s.qemu.unread = []

theorem Piles.refl (s : Session ρ) : Piles s s := fun h => h

theorem Piles.trans (s t u : Session ρ) (h : Piles s t) (h' : Piles t u) : Piles s u :=
  fun hu => h (h' hu)

section Piling

variable (site) (env)

theorem receive_unread {command : String} {failed : Option String} {us : List QmpReply}
    {r : QmpReply} (h : (receive command failed (us ++ [r])).2 = []) : us = [] := by
  cases us with
  | nil => rfl
  | cons u us => cases failed <;> simp [receive] at h

theorem execute_piles (step : Step) (c : Command) :
    Keeps Piles (QemuVm.execute site env step c) := by
  intro s
  unfold QemuVm.execute
  by_cases halive : (QemuVm.issue site env step c s).qemu.alive = true
  · simp only [halive, if_true]
    intro h
    have hreply := receive_unread h
    unfold QemuVm.respond at hreply
    split at hreply
    · rename_i s' _ hdo
      exact (issue_unread site env step c s).symm.trans ((carryOut_unread hdo).symm.trans hreply)
    · exact (issue_unread site env step c s).symm.trans hreply
  · simp only [halive]
    exact fun h => (issue_unread site env step c s).symm.trans h

theorem order_piles (step : Step) (c : Command) : Keeps Piles (QemuVm.order site env step c) :=
  keeps_bind Piles.trans (execute_piles site env step c) fun _ => keeps_pure Piles.refl _

theorem waitMigration_piles (polls : List Poll) (poll : Nat) :
    Keeps Piles (QemuVm.waitMigration site env polls poll) := by
  induction polls generalizing poll with
  | nil =>
      refine keeps_bind Piles.trans (execute_piles site env _ _) fun status => ?_
      split
      · exact keeps_ofExcept Piles.refl _
      · exact keeps_raise Piles.refl _
  | cons p polls ih =>
      intro s h
      refine (endMigration_unread site s p).symm.trans
        (keeps_bind Piles.trans (execute_piles site env _ _) (fun status => ?_)
          (s.endMigration site p) h)
      split
      · exact keeps_ofExcept Piles.refl _
      · exact ih (poll + 1)

theorem snapshot_piles (diskNodes : List String) (stateDir tag : String) :
    Keeps Piles (QemuVm.snapshot site env diskNodes stateDir tag) := by
  unfold QemuVm.snapshot
  refine keeps_bind Piles.trans (execute_piles site env _ _) fun _ => ?_
  refine keeps_bind Piles.trans (keeps_runIf Piles.refl (order_piles site env _ _)) fun _ => ?_
  refine keeps_bind Piles.trans (keeps_mapEach Piles.trans Piles.refl fun a _ => ?_) fun _ => ?_
  · exact keeps_bind Piles.trans (order_piles site env _ _) fun _ => keeps_pure Piles.refl _
  refine keeps_bind Piles.trans (order_piles site env _ _) fun _ => ?_
  refine keeps_bind Piles.trans (waitMigration_piles site env _ _) fun _ => ?_
  refine keeps_bind Piles.trans (keeps_runIf Piles.refl (order_piles site env _ _)) fun _ => ?_
  refine keeps_bind Piles.trans (fun s => ?_) fun _ => keeps_pure Piles.refl _
  unfold QemuVm.readState
  split <;> exact Piles.refl s

end Piling

-- A relation between sessions that no guest act breaks, no log entry of an allowed command, and no
-- reply.
structure Frame (site : Site ρ) (allowed : Command → Prop)
    (R : Session ρ → Session ρ → Prop) : Prop where
  refl : ∀ s, R s s
  trans : ∀ s s' s'', R s s' → R s' s'' → R s s''
  act : ∀ s a, R s (s.act site a)
  note : ∀ (s : Session ρ) (step : Step) (c : Command), allowed c →
    R s { s with world := s.world.note (.command step c s.qemu s.world.files) }
  unread : ∀ s us, R s (s.setUnread us)

namespace Frame

variable {allowed : Command → Prop} {R : Session ρ → Session ρ → Prop} (F : Frame site allowed R)
include F

theorem during (s : Session ρ) (acts : List (Act ρ)) : R s (s.during site acts) :=
  Session.during_keeps site F.refl F.trans F.act s acts

theorem issue (env : Env ρ) (step : Step) {c : Command} (hc : allowed c) (s : Session ρ) :
    R s (QemuVm.issue site env step c s) :=
  F.trans _ _ _ (F.during s _) (F.note _ _ _ hc)

-- A command keeps what its effect keeps.
theorem execute {step : Step} {c : Command} (hc : allowed c)
    (hdo : ∀ s s', s.carryOut site c = some s' → R s s') :
    Keeps R (QemuVm.execute site env step c) := by
  intro s
  have hissue := F.issue env step hc s
  obtain ⟨t, us, ht, hend⟩ := execute_reaches site env step c s
  rw [hend]
  refine F.trans _ _ _ ?_ (F.unread t us)
  obtain rfl | hcarry := ht
  · exact hissue
  · exact F.trans _ _ _ hissue (hdo _ _ hcarry)

theorem order {step : Step} {c : Command} (hc : allowed c)
    (hdo : ∀ s s', s.carryOut site c = some s' → R s s') :
    Keeps R (QemuVm.order site env step c) :=
  keeps_bind F.trans (F.execute hc hdo) fun _ => keeps_pure F.refl _

theorem status (hc : allowed .queryStatus) (poll : Nat) :
    Keeps R (QemuVm.status site env poll) := by
  refine F.execute hc fun s s' h => ?_
  cases h
  exact F.refl s

theorem queryMigrate (hc : allowed .queryMigrate) (poll : Nat) :
    Keeps R (QemuVm.queryMigrate site env poll) := by
  refine F.execute hc fun s s' h => ?_
  cases h
  exact F.refl s

theorem waitMigration (hc : allowed .queryMigrate) (hend : ∀ s p, R s (s.endMigration site p))
    (polls : List Poll) (poll : Nat) :
    Keeps R (QemuVm.waitMigration site env polls poll) := by
  induction polls generalizing poll with
  | nil =>
      refine keeps_bind F.trans (F.queryMigrate hc poll) fun status => ?_
      split
      · exact keeps_ofExcept F.refl _
      · exact keeps_raise F.refl _
  | cons p polls ih =>
      intro s
      refine F.trans _ _ _ (hend s p)
        (keeps_bind F.trans (F.queryMigrate hc poll) (fun status => ?_) (s.endMigration site p))
      split
      · exact keeps_ofExcept F.refl _
      · exact ih (poll + 1)

theorem waitIncoming (hc : allowed .queryStatus) {stateFile : String}
    (hload : ∀ s l, R s (s.load site stateFile l)) (loads : List Load) (poll : Nat) :
    Keeps R (QemuVm.waitIncoming site env stateFile loads poll) := by
  induction loads generalizing poll with
  | nil =>
      refine keeps_bind F.trans (F.status hc poll) fun status => ?_
      split
      · exact keeps_ofExcept F.refl _
      · exact keeps_raise F.refl _
  | cons l loads ih =>
      intro s
      refine F.trans _ _ _ (hload s l)
        (keeps_bind F.trans (F.status hc poll) (fun status => ?_) (s.load site stateFile l))
      split
      · exact keeps_ofExcept F.refl _
      · exact ih (poll + 1)

theorem readState (env : Env ρ) (stateFile : String) : Keeps R (QemuVm.readState site env stateFile) := by
  intro s
  unfold QemuVm.readState
  split <;> exact F.refl s

theorem syncDisks {diskNodes : List String} {stateDir tag : String}
    (hc : ∀ node file snap, allowed (.blockdevSnapshotSync node file snap))
    (hsync : ∀ node file snap s s',
      s.carryOut site (.blockdevSnapshotSync node file snap) = some s' → R s s') :
    Keeps R (QemuVm.syncDisks site env diskNodes stateDir tag) := by
  refine keeps_mapEach F.trans F.refl fun a _ => ?_
  exact keeps_bind F.trans (F.order (hc _ _ _) (hsync _ _ _)) fun _ => keeps_pure F.refl _

-- A capture keeps what each of its commands keeps.
theorem snapshot_of (env : Env ρ) (diskNodes : List String) (stateDir tag : String)
    (hstatus : allowed .queryStatus) (hstop : allowed .stop)
    (hsync : ∀ node file snap, allowed (.blockdevSnapshotSync node file snap))
    (hmigrate : allowed (.migrate (join stateDir (QemuVm.stateName tag))))
    (hquery : allowed .queryMigrate) (hcont : allowed .cont)
    (hdo : ∀ c s s', s.carryOut site c = some s' → R s s')
    (hend : ∀ s p, R s (s.endMigration site p)) :
    Keeps R (QemuVm.snapshot site env diskNodes stateDir tag) := by
  unfold QemuVm.snapshot
  refine keeps_bind F.trans (F.status hstatus 0) fun _ => ?_
  refine keeps_bind F.trans (keeps_runIf F.refl (F.order hstop (hdo _))) fun _ => ?_
  refine keeps_bind F.trans (F.syncDisks hsync fun _ _ _ => hdo _) fun _ => ?_
  refine keeps_bind F.trans (F.order hmigrate (hdo _)) fun _ => ?_
  refine keeps_bind F.trans (F.waitMigration hquery hend _ _) fun _ => ?_
  refine keeps_bind F.trans (keeps_runIf F.refl (F.order hcont (hdo _))) fun _ => ?_
  exact keeps_bind F.trans (F.readState _ _) fun _ => keeps_pure F.refl _

theorem snapshot (env : Env ρ) (diskNodes : List String) (stateDir tag : String)
    (hc : ∀ c, allowed c)
    (hdo : ∀ c s s', s.carryOut site c = some s' → R s s')
    (hend : ∀ s p, R s (s.endMigration site p)) :
    Keeps R (QemuVm.snapshot site env diskNodes stateDir tag) :=
  F.snapshot_of env diskNodes stateDir tag (hc _) (hc _) (fun _ _ _ => hc _) (hc _) (hc _) (hc _) hdo
    hend

theorem restoreIncoming {stateFile : String} (hc : allowed (.migrateIncoming stateFile))
    (hcq : allowed .queryStatus)
    (hdo : ∀ s s', s.carryOut site (.migrateIncoming stateFile) = some s' → R s s')
    (hload : ∀ s l, R s (s.load site stateFile l)) :
    Keeps R (QemuVm.restoreIncoming site env stateFile) :=
  keeps_bind F.trans (F.order hc hdo) fun _ => F.waitIncoming hcq hload _ _

theorem quit (hc : allowed .quit) (hdo : ∀ s s', s.carryOut site .quit = some s' → R s s') :
    Keeps R (QemuVm.quit site env) :=
  keeps_bind F.trans
    (keeps_tryExcept F.trans (F.order hc hdo) fun _ => keeps_pure F.refl _)
    fun _ => keeps_raiseIf F.refl _ _

end Frame

-- What only the commands that are about it change.
section Frames

-- The chains, but for `blockdev-snapshot-sync`.
def SameDisks (s s' : Session ρ) : Prop := s'.qemu.disks = s.qemu.disks

theorem sameDisks_frame (site : Site ρ) : Frame site (fun _ => True) (SameDisks (ρ := ρ)) where
  refl _ := rfl
  trans _ _ _ h h' := Eq.trans h' h
  act s a := s.act_disks a
  note _ _ _ _ := rfl
  unread _ _ := rfl

theorem carryOut_disks {c : Command} (hc : ∀ node file snap, c ≠ .blockdevSnapshotSync node file snap)
    (h : s.carryOut site c = some s') : SameDisks s s' := by
  cases c with
  | blockdevSnapshotSync node file snap => exact absurd rfl (hc node file snap)
  | cont | queryStatus | queryMigrate | quit =>
      cases h
      rfl
  | stop =>
      simp only [Session.carryOut] at h
      split at h <;> (cases h; rfl)
  | migrate stateFile =>
      simp only [Session.carryOut] at h
      split at h
      · cases h
      · cases h
        rfl
  | migrateIncoming stateFile =>
      simp only [Session.carryOut] at h
      split at h
      · cases h
        rfl
      · cases h

theorem endMigration_disks (s : Session ρ) (p : Poll) : SameDisks s (s.endMigration site p) := by
  unfold Session.endMigration SameDisks
  split <;> rfl

theorem load_disks (s : Session ρ) (f : String) (l : Load) : SameDisks s (s.load site f l) := by
  cases l with
  | loading | failed => rfl
  | loaded =>
      simp only [Session.load, SameDisks]
      split <;> rfl

-- A process that is gone does not come back.
def StaysDead (s s' : Session ρ) : Prop := s.qemu.alive = false → s'.qemu.alive = false

theorem StaysDead.there (h : StaysDead s s') (halive : s'.qemu.alive = true) :
    s.qemu.alive = true := by
  by_contra hgone
  rw [h (Bool.eq_false_iff.mpr hgone)] at halive
  cases halive

theorem staysDead_frame (site : Site ρ) : Frame site (fun _ => True) (StaysDead (ρ := ρ)) where
  refl _ h := h
  trans _ _ _ h h' hd := h' (h hd)
  act _ a hd := Session.act_dead a hd
  note _ _ _ _ hd := hd
  unread _ _ hd := hd

theorem carryOut_dead {c : Command} (h : s.carryOut site c = some s') : StaysDead s s' := by
  intro hd
  cases c with
  | blockdevSnapshotSync node file snap =>
      simp only [Session.carryOut] at h
      split at h
      · cases h
      · cases h
        exact hd
  | cont | queryStatus | queryMigrate =>
      cases h
      exact hd
  | quit =>
      cases h
      rfl
  | stop =>
      simp only [Session.carryOut] at h
      split at h <;> (cases h; exact hd)
  | migrate stateFile =>
      simp only [Session.carryOut] at h
      split at h
      · cases h
      · cases h
        exact hd
  | migrateIncoming stateFile =>
      simp only [Session.carryOut] at h
      split at h
      · cases h
        exact hd
      · cases h

theorem endMigration_dead (s : Session ρ) (p : Poll) : StaysDead s (s.endMigration site p) := by
  intro hd
  unfold Session.endMigration
  split <;> exact hd

-- The outgoing migration, but for `migrate` and its end.
def SameMigration (s s' : Session ρ) : Prop := s'.qemu.migration = s.qemu.migration

theorem sameMigration_frame (site : Site ρ) : Frame site (fun _ => True) (SameMigration (ρ := ρ)) where
  refl _ := rfl
  trans _ _ _ h h' := Eq.trans h' h
  act s a := s.act_migration a
  note _ _ _ _ := rfl
  unread _ _ := rfl

theorem carryOut_migration {c : Command} (hc : ∀ file, c ≠ .migrate file)
    (h : s.carryOut site c = some s') : SameMigration s s' := by
  cases c with
  | migrate file => exact absurd rfl (hc file)
  | blockdevSnapshotSync node file snap =>
      simp only [Session.carryOut] at h
      split at h
      · cases h
      · cases h
        rfl
  | cont | queryStatus | queryMigrate | quit =>
      cases h
      rfl
  | stop =>
      simp only [Session.carryOut] at h
      split at h <;> (cases h; rfl)
  | migrateIncoming stateFile =>
      simp only [Session.carryOut] at h
      split at h
      · cases h
        rfl
      · cases h

-- A halted guest, but for `cont`.
def StaysHalted (s s' : Session ρ) : Prop :=
  s.qemu.vcpusRunning = false → s'.qemu.vcpusRunning = false

theorem staysHalted_frame (site : Site ρ) : Frame site (fun _ => True) (StaysHalted (ρ := ρ)) where
  refl _ h := h
  trans _ _ _ h h' hs := h' (h hs)
  act s a hs := (congrArg (· == .running) (s.act_runState a)).trans hs
  note _ _ _ _ hs := hs
  unread _ _ hs := hs

theorem carryOut_halted {c : Command} (hc : c ≠ .cont) (h : s.carryOut site c = some s') :
    StaysHalted s s' := by
  intro hs
  cases c with
  | cont => exact absurd rfl hc
  | blockdevSnapshotSync node file snap =>
      simp only [Session.carryOut] at h
      split at h
      · cases h
      · cases h
        exact hs
  | queryStatus | queryMigrate | quit =>
      cases h
      exact hs
  | stop =>
      simp only [Session.carryOut, hs] at h
      cases h
      exact hs
  | migrate stateFile =>
      simp only [Session.carryOut] at h
      split at h
      · cases h
      · cases h
        exact hs
  | migrateIncoming stateFile =>
      simp only [Session.carryOut] at h
      split at h
      · cases h
        exact hs
      · cases h

theorem endMigration_halted (s : Session ρ) (p : Poll) : StaysHalted s (s.endMigration site p) := by
  intro hs
  unfold Session.endMigration
  split
  · rfl
  · exact hs
  · exact hs
  · exact hs

-- The commands that have QEMU make a file.
def Command.makesFile : Command → Bool
  | .blockdevSnapshotSync .. => true
  | .migrate _ => true
  | _ => false

-- The command that has QEMU load a saved state.
def Command.loadsState : Command → Bool
  | .migrateIncoming _ => true
  | _ => false

-- Only the commands that make a file change anything outside the process.
theorem carryOut_world {c : Command} (hc : c.makesFile = false)
    (h : s.carryOut site c = some s') : s'.world = s.world := by
  cases c with
  | blockdevSnapshotSync _ _ _ | migrate _ => cases hc
  | cont | queryStatus | queryMigrate | quit =>
      cases h
      rfl
  | stop =>
      simp only [Session.carryOut] at h
      split at h <;> (cases h; rfl)
  | migrateIncoming stateFile =>
      simp only [Session.carryOut] at h
      split at h
      · cases h
        rfl
      · cases h

theorem load_world (s : Session ρ) (f : String) (l : Load) : (s.load site f l).world = s.world := by
  cases l with
  | loading | failed => rfl
  | loaded =>
      simp only [Session.load]
      split <;> rfl

-- Nothing is written but images, and images they stay.
def World.Poked (w w' : World ρ) : Prop :=
  ∀ p, w'.files p = w.files p ∨
    ∃ l l', w.files p = some (.image l) ∧ w'.files p = some (.image l')

namespace World.Poked

variable {w w' w'' : World ρ}

theorem of_eq (h : w'.files = w.files) : World.Poked w w' := fun p => Or.inl (congrFun h p)

theorem trans (h : World.Poked w w') (h' : World.Poked w' w'') : World.Poked w w'' := by
  intro p
  obtain he | ⟨l, l', hl, hl'⟩ := h p
  · obtain he' | ⟨l, l', hl, hl'⟩ := h' p
    · exact Or.inl (he'.trans he)
    · exact Or.inr ⟨l, l', he ▸ hl, hl'⟩
  · obtain he' | ⟨m, m', -, hm'⟩ := h' p
    · exact Or.inr ⟨l, l', hl, he'.trans hl'⟩
    · exact Or.inr ⟨l, m', hl, hm'⟩

theorem ram (h : World.Poked w w') {p : Path} {state : Option ρ}
    (hp : w.files p = some (.ram state)) : w'.files p = some (.ram state) := by
  obtain he | ⟨l, l', hl, -⟩ := h p
  · exact he.trans hp
  · rw [hl] at hp
    cases hp

theorem layer_isSome (h : World.Poked w w') (p : Path) :
    (w'.files.layer p).isSome = (w.files.layer p).isSome := by
  obtain he | ⟨l, l', hl, hl'⟩ := h p
  · simp only [Files.layer, he]
  · simp only [Files.layer, hl, hl', Option.isSome_some]

end World.Poked

-- The same image but for the bytes it holds.
def Rewritten (x y : Option (Item ρ)) : Prop :=
  ∃ l l', x = some (.image l) ∧ y = some (.image l') ∧ l'.size = l.size ∧ l'.backing = l.backing

theorem Rewritten.trans {x y z : Option (Item ρ)} (h : Rewritten x y) (h' : Rewritten y z) :
    Rewritten x z := by
  obtain ⟨l, l', hx, hy, hsize, hbacking⟩ := h
  obtain ⟨m, m', hy', hz, hsize', hbacking'⟩ := h'
  rw [hy, Option.some.injEq, Item.image.injEq] at hy'
  subst hy'
  exact ⟨l, m', hx, hz, hsize'.trans hsize, hbacking'.trans hbacking⟩

theorem World.poke_rewrites (w : World ρ) (p : Path) (o : Nat) (b : UInt8) (q : Path) :
    (w.poke p o b).files q = w.files q ∨
      q = p ∧ Rewritten (w.files q) ((w.poke p o b).files q) := by
  by_cases hq : q = p
  · subst hq
    unfold World.poke
    split
    · rename_i l hl
      have himage : w.files q = some (.image l) := by
        unfold Files.layer at hl
        split at hl
        · rename_i l' hl'
          rw [hl', Option.some.inj hl]
        · cases hl
      split
      · exact Or.inr ⟨rfl, l, _, himage, w.put_files_self _ _, rfl, rfl⟩
      · exact Or.inl rfl
    · exact Or.inl rfl
  · exact Or.inl (w.poke_files_of_ne o b hq)

theorem World.poke_poked (w : World ρ) (p : Path) (o : Nat) (b : UInt8) :
    World.Poked w (w.poke p o b) := by
  intro q
  obtain hsame | ⟨-, l, l', hl, hl', -, -⟩ := w.poke_rewrites p o b q
  · exact Or.inl hsame
  · exact Or.inr ⟨l, l', hl, hl'⟩

-- A process that no command has make a file pokes.
def Pokes (s s' : Session ρ) : Prop := World.Poked s.world s'.world

theorem pokes_frame (site : Site ρ) : Frame site (fun _ => True) (Pokes (ρ := ρ)) where
  refl _ := World.Poked.of_eq rfl
  trans _ _ _ h h' := h.trans h'
  act s a := by
    cases a with
    | write disk offset byte =>
        simp only [Session.act]
        split
        · split
          · exact s.world.poke_poked _ _ _
          · exact World.Poked.of_eq rfl
        · exact World.Poked.of_eq rfl
    | ram state =>
        simp only [Session.act]
        split <;> exact World.Poked.of_eq rfl
    | exit => exact World.Poked.of_eq rfl
  note _ _ _ _ := World.Poked.of_eq rfl
  unread _ _ := World.Poked.of_eq rfl

theorem carryOut_pokes {c : Command} (hc : c.makesFile = false)
    (h : s.carryOut site c = some s') : Pokes s s' :=
  World.Poked.of_eq (congrArg World.files (carryOut_world hc h))

-- The log only grows, and by events of one kind.
def World.Logs (P : Event ρ → Prop) (w w' : World ρ) : Prop :=
  ∃ events, w'.log = w.log ++ events ∧ ∀ ev ∈ events, P ev

def Logs (P : Event ρ → Prop) (s s' : Session ρ) : Prop := World.Logs P s.world s'.world

theorem World.Logs.of_eq {P : Event ρ → Prop} {w w' : World ρ} (h : w'.log = w.log) :
    World.Logs P w w' :=
  ⟨[], by rw [h, List.append_nil], fun _ hev => nomatch hev⟩

theorem World.Logs.trans {P : Event ρ → Prop} {w w' w'' : World ρ} (h : World.Logs P w w')
    (h' : World.Logs P w' w'') : World.Logs P w w'' := by
  obtain ⟨events, hlog, hall⟩ := h
  obtain ⟨events', hlog', hall'⟩ := h'
  refine ⟨events ++ events', by rw [hlog', hlog, List.append_assoc], fun ev hev => ?_⟩
  obtain hev | hev := List.mem_append.mp hev
  · exact hall ev hev
  · exact hall' ev hev

theorem World.Logs.note {P : Event ρ → Prop} (w : World ρ) {ev : Event ρ} (h : P ev) :
    World.Logs P w (w.note ev) :=
  ⟨[ev], rfl, fun ev' hev => by rw [List.mem_singleton.mp hev]; exact h⟩

-- What held of every event before still does.
theorem World.Logs.all {P : Event ρ → Prop} {w w' : World ρ} (h : World.Logs P w w')
    (hall : ∀ ev ∈ w.log, P ev) : ∀ ev ∈ w'.log, P ev := by
  obtain ⟨events, hlog, hnew⟩ := h
  intro ev hev
  rw [hlog] at hev
  obtain hev | hev := List.mem_append.mp hev
  · exact hall ev hev
  · exact hnew ev hev

theorem logs_frame (site : Site ρ) (P : Event ρ → Prop) :
    Frame site (fun c => ∀ step q files, P (.command step c q files)) (Logs P) where
  refl _ := World.Logs.of_eq rfl
  trans _ _ _ h h' := h.trans h'
  act s a := World.Logs.of_eq (s.act_log a)
  note s step _ hc := World.Logs.note s.world (hc step s.qemu s.world.files)
  unread _ _ := World.Logs.of_eq rfl

theorem carryOut_logs {P : Event ρ → Prop} {c : Command} (h : s.carryOut site c = some s') :
    Logs P s s' := by
  refine World.Logs.of_eq ?_
  cases c with
  | blockdevSnapshotSync node file snap =>
      simp only [Session.carryOut] at h
      split at h
      · cases h
      · cases h
        rfl
  | cont | queryStatus | queryMigrate | quit =>
      cases h
      rfl
  | stop =>
      simp only [Session.carryOut] at h
      split at h <;> (cases h; rfl)
  | migrate stateFile =>
      simp only [Session.carryOut] at h
      split at h
      · cases h
      · cases h
        rfl
  | migrateIncoming stateFile =>
      simp only [Session.carryOut] at h
      split at h
      · cases h
        rfl
      · cases h

theorem endMigration_logs {P : Event ρ → Prop} (s : Session ρ) (p : Poll) :
    Logs P s (s.endMigration site p) := by
  refine World.Logs.of_eq ?_
  unfold Session.endMigration
  split <;> rfl

theorem load_logs {P : Event ρ → Prop} (s : Session ρ) (f : String) (l : Load) :
    Logs P s (s.load site f l) := by
  refine World.Logs.of_eq ?_
  cases l with
  | loading | failed => rfl
  | loaded =>
      simp only [Session.load]
      split <;> rfl

end Frames

end VMForge.Engine
