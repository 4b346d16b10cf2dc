import Mathlib.Data.List.Basic
import Mathlib.Data.List.TakeWhile

namespace VMForge.Shell

-- The words of a command line: their characters, and which of them quoting has kept from the
-- shell.
abbrev Word := List (Char × Bool)

inductive Token where
  | word (w : Word)
  | op (text : List Char)
deriving DecidableEq

inductive Mode where
  | plain
  | escape
  | single
  | double
  | doubleEscape
  | comment
deriving DecidableEq

-- The token that is being read.
inductive Pending where
  | nothing
  | word (w : Word)
  | op (text : List Char)
deriving DecidableEq

structure Lexer where
  mode : Mode
  tokens : List Token
  pending : Pending
deriving DecidableEq

def isOperator (text : List Char) : Bool :=
  text ∈ ["&&", "||", ";;", "<", ">", "&", ";", "|", "(", ")", "<<", ">>", "<&", ">&", "<>", "<<-",
    ">|", "\n"].map String.toList

def isBlank (c : Char) : Bool := c == ' ' || c == '\t'

def Pending.isWord : Pending → Bool
  | .word _ => true
  | _ => false

namespace Lexer

def start : Lexer := ⟨.plain, [], .nothing⟩

-- The tokens, with the one that ends here.
def close (s : Lexer) : List Token :=
  match s.pending with
  | .nothing => s.tokens
  | .word w => s.tokens ++ [.word w]
  | .op text => s.tokens ++ [.op text]

def push (s : Lexer) (c : Char) (quoted : Bool) : Lexer :=
  match s.pending with
  | .word w => { s with pending := .word (w ++ [(c, quoted)]) }
  | _ => ⟨s.mode, s.close, .word [(c, quoted)]⟩

-- A quote opens, in a word or at the start of one.
def quote (s : Lexer) (mode : Mode) : Lexer :=
  match s.pending with
  | .word w => ⟨mode, s.tokens, .word w⟩
  | _ => ⟨mode, s.close, .word []⟩

def setMode (s : Lexer) (mode : Mode) : Lexer := { s with mode := mode }

-- A character that is neither quoted nor part of an operator: backslash, single and double quote,
-- dollar and backquote, blank, comment, operator, or one that stands for itself. What an expansion
-- stands for is not in the text.
def next (s : Lexer) (c : Char) : Option Lexer :=
  if c = '\\' then some (s.setMode .escape)
  else if c = '\x27' then some (s.quote .single)
  else if c = '\x22' then some (s.quote .double)
  else if c = '$' ∨ c = '\x60' then none
  else if isBlank c = true then some ⟨.plain, s.close, .nothing⟩
  else if c = '#' ∧ s.pending.isWord = false then some ⟨.comment, s.close, .nothing⟩
  else if isOperator [c] = true then some ⟨.plain, s.close, .op [c]⟩
  else some (s.push c false)

def step (s : Lexer) (c : Char) : Option Lexer :=
  match s.mode with
  | .plain =>
      match s.pending with
      | .op text =>
          if isOperator (text ++ [c]) = true then some { s with pending := .op (text ++ [c]) }
          else s.next c
      | _ => s.next c
  | .escape => if c = '\n' then some (s.setMode .plain) else some ((s.push c true).setMode .plain)
  | .single => if c = '\x27' then some (s.setMode .plain) else some (s.push c true)
  | .double =>
      if c = '\x22' then some (s.setMode .plain)
      else if c = '\\' then some (s.setMode .doubleEscape)
      else if c = '$' ∨ c = '\x60' then none
      else some (s.push c true)
  | .doubleEscape =>
      if c ∈ ['$', '\x60', '\x22', '\\'] then some ((s.push c true).setMode .double)
      else if c = '\n' then some (s.setMode .double)
      else some (((s.push '\\' true).push c true).setMode .double)
  | .comment => if c = '\n' then some ⟨.plain, s.close, .op ['\n']⟩ else some s

def scan : Lexer → List Char → Option Lexer
  | s, [] => some s
  | s, c :: text => (s.step c).bind fun s' => scan s' text

end Lexer

-- The tokens of a text. One that ends inside quotes is no command.
def tokens (text : List Char) : Option (List Token) :=
  (Lexer.start.scan text).bind fun s =>
    if s.mode = .plain ∨ s.mode = .comment then some s.close else none

-- The words and the targets of `>`; any other operator makes more of a text than one command that
-- writes to files.
def redirections : List Token → Option (List Word × List Word)
  | [] => some ([], [])
  | .word w :: rest => (redirections rest).map fun r => (w :: r.1, r.2)
  | .op text :: .word w :: rest =>
      if text = ['>'] then (redirections rest).map fun r => (r.1, w :: r.2) else none
  | [.op _] => none
  | .op _ :: .op _ :: _ => none

def text (w : Word) : List Char := w.map (·.1)

-- A tilde at the start of a word, and the characters of patterns, are expanded when they are not
-- quoted; a pattern as the target of `>` is not.
def hasTilde (w : Word) : Bool := w.head? == some ('~', false)

def isPattern (w : Word) : Bool := w.any fun p => !p.2 && p.1 ∈ ['*', '?', '[']

def reserved : List (List Char) :=
  ["!", "\x7b", "\x7d", "case", "do", "done", "elif", "else", "esac", "fi", "for", "if", "in", "then",
    "until", "while"].map String.toList

-- The program and its arguments, and the files its output goes to.
structure Job where
  argv : List (List Char)
  outputs : List (List Char)
deriving DecidableEq

-- What a text runs, if the shell takes it for one program with the arguments and targets as they
-- stand.
def read (command : List Char) : Option Job :=
  ((tokens command).bind redirections).bind fun (words, outputs) =>
    if (words ++ outputs).any hasTilde || words.any isPattern then none
    else
      match words with
      | [] => none
      | w :: _ =>
          if text w ∈ reserved ∨ '=' ∈ text w then none
          else some ⟨words.map text, outputs.map text⟩

-- The characters that stand for themselves in a word.
def isBare (c : Char) : Bool :=
  c ∉ ['\\', '\x27', '\x22', '$', '\x60', ' ', '\t', '\n', '&', ';', '|', '<', '>', '(', ')']

-- A text that is one word and stands for itself.
structure Literal (word : List Char) : Prop where
  ne_nil : word ≠ []
  bare : ∀ c ∈ word, isBare c = true
  hash : word.head? ≠ some '#'
  tilde : word.head? ≠ some '~'

def bare (word : List Char) : Word := word.map (·, false)

section Scanning

open Lexer

theorem scan_append (s : Lexer) (xs ys : List Char) :
    s.scan (xs ++ ys) = (s.scan xs).bind fun s' => s'.scan ys := by
  induction xs generalizing s with
  | nil => rfl
  | cons c xs ih =>
      rw [List.cons_append, scan, scan, Option.bind_assoc]
      congr 1
      funext s'
      exact ih s'

theorem isBare_iff {c : Char} : isBare c = true ↔
    ¬c = '\\' ∧ ¬c = '\x27' ∧ ¬c = '\x22' ∧ ¬(c = '$' ∨ c = '\x60') ∧ ¬isBlank c = true ∧ ¬isOperator [c] = true := by
  unfold isBare isBlank isOperator
  simp
  grind

theorem next_bare {s : Lexer} {c : Char} (hc : isBare c = true)
    (hhash : c = '#' → s.pending.isWord = true) : s.next c = some (s.push c false) := by
  obtain ⟨hslash, hsingle, hdouble, hexpand, hblank, hop⟩ := isBare_iff.mp hc
  unfold next
  rw [if_neg hslash, if_neg hsingle, if_neg hdouble, if_neg hexpand, if_neg hblank, if_neg, if_neg hop]
  rintro ⟨rfl, hword⟩
  rw [hhash rfl] at hword
  cases hword

-- Bare characters go on with the word.
theorem scan_word (toks : List Token) (w : Word) {word : List Char} (hbare : ∀ c ∈ word, isBare c = true) :
    (Lexer.mk .plain toks (.word w)).scan word = some ⟨.plain, toks, .word (w ++ bare word)⟩ := by
  induction word generalizing w with
  | nil =>
      rw [bare, List.map_nil, List.append_nil]
      rfl
  | cons c word ih =>
      have hnext : (Lexer.mk .plain toks (.word w)).step c =
          some ⟨.plain, toks, .word (w ++ [(c, false)])⟩ :=
        next_bare (hbare c List.mem_cons_self) fun _ => rfl
      rw [scan, hnext, Option.bind_some, ih (w ++ [(c, false)]) fun d hd =>
        hbare d (List.mem_cons_of_mem c hd)]
      simp [bare]

theorem scan_bare (toks : List Token) {word : List Char} (hne : word ≠ [])
    (hbare : ∀ c ∈ word, isBare c = true) (hhash : word.head? ≠ some '#') :
    (Lexer.mk .plain toks .nothing).scan word = some ⟨.plain, toks, .word (bare word)⟩ := by
  obtain ⟨c, word, rfl⟩ := List.exists_cons_of_ne_nil hne
  have hnext : (Lexer.mk .plain toks .nothing).step c = some ⟨.plain, toks, .word [(c, false)]⟩ := by
    refine next_bare (hbare c List.mem_cons_self) fun hc => ?_
    rw [hc] at hhash
    exact absurd rfl hhash
  rw [scan, hnext, Option.bind_some, scan_word toks _ fun d hd => hbare d (List.mem_cons_of_mem c hd)]
  rfl

end Scanning

section Weights

-- The characters of the words.
def weight : List Token → Nat
  | [] => 0
  | .word w :: rest => w.length + weight rest
  | .op _ :: rest => weight rest

theorem weight_append (xs ys : List Token) : weight (xs ++ ys) = weight xs + weight ys := by
  induction xs with
  | nil => simp [weight]
  | cons t xs ih =>
      cases t with
      | word w => rw [List.cons_append, weight, weight, ih, Nat.add_assoc]
      | op o => rw [List.cons_append, weight, weight, ih]

theorem redirections_weight {toks : List Token} {words outputs : List Word}
    (h : redirections toks = some (words, outputs)) :
    weight toks = (words ++ outputs).flatten.length := by
  fun_induction redirections toks generalizing words outputs with
  | case1 =>
      cases h
      rfl
  | case2 w rest ih =>
      obtain ⟨⟨words', outputs'⟩, hrest, heq⟩ := Option.map_eq_some_iff.mp h
      cases heq
      rw [weight, ih hrest]
      simp
  | case3 w rest ih =>
      obtain ⟨⟨words', outputs'⟩, hrest, heq⟩ := Option.map_eq_some_iff.mp h
      cases heq
      rw [weight, weight, ih hrest]
      simp
      omega
  | case4 => cases h
  | case5 => cases h
  | case6 => cases h

namespace Lexer

-- A backslash inside double quotes may still come out.
def size (s : Lexer) : Nat := weight s.close + if s.mode = .doubleEscape then 1 else 0

theorem weight_push (s : Lexer) (c : Char) (quoted : Bool) :
    weight (s.push c quoted).close = weight s.close + 1 := by
  obtain ⟨mode, toks, pending⟩ := s
  cases pending with
  | nothing => simp [push, close, weight_append, weight]
  | op o => simp [push, close, weight_append, weight]
  | word w =>
      simp only [push, close, weight_append, weight, List.length_append, List.length_singleton]
      omega

theorem weight_quote (s : Lexer) (mode : Mode) : weight (s.quote mode).close = weight s.close := by
  obtain ⟨mode', toks, pending⟩ := s
  cases pending with
  | nothing => simp [quote, close, weight_append, weight]
  | op o => simp [quote, close, weight_append, weight]
  | word w => rfl

theorem weight_setMode (s : Lexer) (mode : Mode) : weight (s.setMode mode).close = weight s.close := rfl

@[simp] theorem push_mode (s : Lexer) (c : Char) (quoted : Bool) : (s.push c quoted).mode = s.mode := by
  obtain ⟨mode, toks, pending⟩ := s
  cases pending <;> rfl

@[simp] theorem quote_mode (s : Lexer) (mode : Mode) : (s.quote mode).mode = mode := by
  obtain ⟨mode', toks, pending⟩ := s
  cases pending <;> rfl

@[simp] theorem setMode_mode (s : Lexer) (mode : Mode) : (s.setMode mode).mode = mode := rfl

theorem weight_op (mode : Mode) (toks : List Token) (o : List Char) :
    weight (close ⟨mode, toks, .op o⟩) = weight toks := by
  simp [close, weight_append, weight]

-- What a character that is not quoted adds to the words: itself, or nothing if the shell gives a
-- meaning to it.
theorem next_size {s s' : Lexer} {c : Char} (hmode : s.mode = .plain) (h : s.next c = some s') :
    s'.size = s.size ∨ s'.size = s.size + 1 ∧ isBare c = true ∧ (c = '#' → s.pending.isWord = true) := by
  have hsize : s.size = weight s.close := by
    rw [size, hmode]
    rfl
  rw [hsize]
  unfold next at h
  split_ifs at h with hslash hsingle hdouble hexpand hblank hhash hop
  · obtain rfl := Option.some.inj h
    exact Or.inl rfl
  · obtain rfl := Option.some.inj h
    left
    rw [size, weight_quote, quote_mode]
    rfl
  · obtain rfl := Option.some.inj h
    left
    rw [size, weight_quote, quote_mode]
    rfl
  · obtain rfl := Option.some.inj h
    exact Or.inl rfl
  · obtain rfl := Option.some.inj h
    exact Or.inl rfl
  · obtain rfl := Option.some.inj h
    left
    rw [size, weight_op]
    rfl
  · obtain rfl := Option.some.inj h
    right
    refine ⟨?_, isBare_iff.mpr ⟨hslash, hsingle, hdouble, hexpand, hblank, hop⟩, fun hc => ?_⟩
    · rw [size, weight_push, push_mode, hmode]
      rfl
    · rw [← Bool.not_eq_false]
      exact fun hword => hhash ⟨hc, hword⟩

-- Every character adds one to the words at most.
theorem step_size {s s' : Lexer} {c : Char} (h : s.step c = some s') : s'.size ≤ s.size + 1 := by
  unfold step at h
  split at h
  · rename_i hmode
    have hnext : s.next c = some s' → s'.size ≤ s.size + 1 := by
      intro hn
      obtain hsame | ⟨hmore, -⟩ := next_size hmode hn
      · omega
      · omega
    split at h
    · rename_i o hpending
      split at h
      · obtain rfl := Option.some.inj h
        have hsize : weight s.close = weight s.tokens := by
          unfold close
          rw [hpending]
          simp [weight_append, weight]
        simp only [size, weight_op, hsize]
        omega
      · exact hnext h
    · exact hnext h
  · rename_i hmode
    split_ifs at h
    · obtain rfl := Option.some.inj h
      simp [size, hmode, weight_setMode]
    · obtain rfl := Option.some.inj h
      simp [size, hmode, weight_setMode, weight_push]
  · rename_i hmode
    split_ifs at h
    · obtain rfl := Option.some.inj h
      simp [size, hmode, weight_setMode]
    · obtain rfl := Option.some.inj h
      simp [size, hmode, weight_push]
  · rename_i hmode
    split_ifs at h
    · obtain rfl := Option.some.inj h
      simp [size, hmode, weight_setMode]
    · obtain rfl := Option.some.inj h
      simp [size, hmode, weight_setMode]
    · obtain rfl := Option.some.inj h
      simp [size, hmode, weight_push]
  · rename_i hmode
    split_ifs at h
    · obtain rfl := Option.some.inj h
      simp [size, hmode, weight_setMode, weight_push]
    · obtain rfl := Option.some.inj h
      simp [size, hmode, weight_setMode]
      omega
    · obtain rfl := Option.some.inj h
      simp [size, hmode, weight_setMode, weight_push]
  · rename_i hmode
    split_ifs at h
    · obtain rfl := Option.some.inj h
      rw [size, weight_op, size, hmode]
      simp
    · obtain rfl := Option.some.inj h
      omega

theorem scan_size {s s' : Lexer} {word : List Char} (h : s.scan word = some s') :
    s'.size ≤ s.size + word.length := by
  induction word generalizing s with
  | nil =>
      obtain rfl := Option.some.inj h
      omega
  | cons c word ih =>
      rw [scan, Option.bind_eq_some_iff] at h
      obtain ⟨s₁, hstep, hscan⟩ := h
      have hone := step_size hstep
      have hrest := ih hscan
      rw [List.length_cons]
      omega

-- Only bare characters add as many characters to a word as there are.
theorem bare_of_scan {toks : List Token} {w : Word} {word : List Char} {s' : Lexer}
    (h : (Lexer.mk .plain toks (.word w)).scan word = some s')
    (hsize : weight toks + w.length + word.length ≤ s'.size) : ∀ c ∈ word, isBare c = true := by
  induction word generalizing w with
  | nil => exact fun c hc => absurd hc List.not_mem_nil
  | cons c word ih =>
      rw [scan, Option.bind_eq_some_iff] at h
      obtain ⟨s₁, hstep, hscan⟩ := h
      have hstart : (Lexer.mk .plain toks (.word w)).size = weight toks + w.length := by
        simp [size, close, weight_append, weight]
      have hrest := scan_size hscan
      rw [List.length_cons] at hsize
      have hstep' : (Lexer.mk .plain toks (.word w)).next c = some s₁ := hstep
      obtain hsame | ⟨-, hbare, -⟩ := next_size rfl hstep'
      · omega
      · rw [next_bare hbare fun _ => rfl] at hstep'
        obtain rfl := Option.some.inj hstep'
        intro d hd
        obtain rfl | hd := List.mem_cons.mp hd
        · exact hbare
        · refine ih hscan ?_ d hd
          rw [List.length_append, List.length_singleton]
          omega

theorem bare_of_scan_start {toks : List Token} {word : List Char} {s' : Lexer}
    (h : (Lexer.mk .plain toks .nothing).scan word = some s')
    (hsize : weight toks + word.length ≤ s'.size) :
    (∀ c ∈ word, isBare c = true) ∧ word.head? ≠ some '#' := by
  cases word with
  | nil => exact ⟨fun c hc => absurd hc List.not_mem_nil, by decide⟩
  | cons c word =>
      rw [scan, Option.bind_eq_some_iff] at h
      obtain ⟨s₁, hstep, hscan⟩ := h
      have hstart : (Lexer.mk .plain toks .nothing).size = weight toks := rfl
      have hrest := scan_size hscan
      rw [List.length_cons] at hsize
      have hstep' : (Lexer.mk .plain toks .nothing).next c = some s₁ := hstep
      obtain hsame | ⟨-, hbare, hhash⟩ := next_size rfl hstep'
      · omega
      · rw [next_bare hbare hhash] at hstep'
        obtain rfl := Option.some.inj hstep'
        constructor
        · intro d hd
          obtain rfl | hd := List.mem_cons.mp hd
          · exact hbare
          · have hpush : (Lexer.mk .plain toks .nothing).push c false =
                ⟨.plain, toks, .word [(c, false)]⟩ := rfl
            rw [hpush] at hscan
            refine bare_of_scan hscan ?_ d hd
            rw [List.length_singleton]
            omega
        · intro hc
          obtain rfl := Option.some.inj hc
          cases hhash rfl

end Lexer

end Weights

section Words

open Lexer

variable {before word : List Char} {toks : List Token}

-- A word of bare characters behind what has ended with a blank.
theorem tokens_bare (hbefore : start.scan before = some ⟨.plain, toks, .nothing⟩) (hne : word ≠ [])
    (hbare : ∀ c ∈ word, isBare c = true) (hhash : word.head? ≠ some '#') :
    tokens (before ++ word) = some (toks ++ [.word (bare word)]) := by
  unfold tokens
  rw [scan_append, hbefore, Option.bind_some, scan_bare toks hne hbare hhash]
  rfl

theorem bare_of_tokens (hbefore : start.scan before = some ⟨.plain, toks, .nothing⟩)
    {toks' : List Token} (h : tokens (before ++ word) = some toks')
    (hweight : weight toks' = weight toks + word.length) :
    (∀ c ∈ word, isBare c = true) ∧ word.head? ≠ some '#' := by
  unfold tokens at h
  rw [scan_append, hbefore, Option.bind_some, Option.bind_eq_some_iff] at h
  obtain ⟨s', hscan, hclose⟩ := h
  split at hclose
  · obtain rfl := Option.some.inj hclose
    refine bare_of_scan_start hscan ?_
    rw [← hweight]
    exact Nat.le_add_right _ _
  · cases hclose

theorem text_bare (word : List Char) : text (bare word) = word := by
  simp [text, bare, Function.comp_def]

theorem hasTilde_bare (word : List Char) : hasTilde (bare word) = (word.head? == some '~') := by
  cases word with
  | nil => rfl
  | cons c word =>
      simp [hasTilde, bare]

theorem isPattern_bare (word : List Char) :
    isPattern (bare word) = word.any fun c => c ∈ ['*', '?', '['] := by
  simp [isPattern, bare, List.any_map, Function.comp_def]

-- What a text that runs a job has for its words.
theorem read_cases {command : List Char} {job : Job} (h : read command = some job) :
    ∃ toks words outputs, tokens command = some toks ∧
      redirections toks = some (words, outputs) ∧
      (∀ w ∈ words ++ outputs, hasTilde w = false) ∧ (∀ w ∈ words, isPattern w = false) ∧
      words.map text = job.argv ∧ outputs.map text = job.outputs := by
  unfold read at h
  rw [Option.bind_eq_some_iff] at h
  obtain ⟨⟨words, outputs⟩, hread, h⟩ := h
  obtain ⟨toks, htoks, hwords⟩ := Option.bind_eq_some_iff.mp hread
  dsimp only at h
  split at h
  · cases h
  · rename_i hguard
    simp only [Bool.or_eq_true, List.any_eq_true, not_or, not_exists, not_and, Bool.not_eq_true]
      at hguard
    split at h
    · cases h
    · split at h
      · cases h
      · obtain rfl := Option.some.inj h
        exact ⟨toks, _, outputs, htoks, hwords, hguard.1, hguard.2, rfl, rfl⟩

theorem weight_of_read {command : List Char} {job : Job} (h : read command = some job) :
    ∃ toks, tokens command = some toks ∧ weight toks = (job.argv ++ job.outputs).flatten.length := by
  obtain ⟨toks, words, outputs, htoks, hwords, -, -, hargv, houtputs⟩ := read_cases h
  refine ⟨toks, htoks, ?_⟩
  rw [redirections_weight hwords, ← hargv, ← houtputs, ← List.map_append, List.length_flatten,
    List.length_flatten, List.map_map]
  congr 1
  apply List.map_congr_left
  intro w _
  exact (List.length_map _).symm

-- A program that is found by its name.
structure Program (prog : List Char) : Prop where
  literal : Literal prog
  pattern : ∀ c ∈ prog, c ∉ ['*', '?', '[']
  assignment : '=' ∉ prog
  reserved : prog ∉ reserved

variable {prog : List Char}

theorem hasTilde_literal (h : Literal word) : hasTilde (bare word) = false := by
  rw [hasTilde_bare, beq_eq_false_iff_ne]
  exact h.tilde

theorem isPattern_plain (h : ∀ c ∈ word, c ∉ ['*', '?', '[']) : isPattern (bare word) = false := by
  rw [isPattern_bare, List.any_eq_false]
  intro c hc
  rw [decide_eq_true_eq]
  exact h c hc

theorem tokens_start (hbefore : start.scan before = some ⟨.plain, toks, .nothing⟩) :
    tokens (before ++ []) = some toks := by
  unfold tokens
  rw [List.append_nil, hbefore]
  rfl

theorem length_bare (word : List Char) : (bare word).length = word.length := List.length_map _

-- A text behind `prog > ` is where the output goes exactly if it is a literal word.
theorem read_output_iff (hprog : Program prog)
    (hbefore : start.scan before = some ⟨.plain, [.word (bare prog), .op ['>']], .nothing⟩) :
    read (before ++ word) = some ⟨[prog], [word]⟩ ↔ Literal word := by
  constructor
  · intro h
    obtain ⟨toks, words, outputs, htoks, hwords, htilde, -, -, -⟩ := read_cases h
    obtain ⟨toks', htoks', hweight⟩ := weight_of_read h
    obtain ⟨hbare, hhash⟩ := bare_of_tokens hbefore htoks' (by
      rw [hweight]
      simp [weight, length_bare])
    have hne : word ≠ [] := by
      rintro rfl
      rw [tokens_start hbefore] at htoks
      obtain rfl := Option.some.inj htoks
      cases hwords
    rw [tokens_bare hbefore hne hbare hhash] at htoks
    obtain rfl := Option.some.inj htoks
    have hread : some ([bare prog], [bare word]) = some (words, outputs) := hwords
    obtain ⟨rfl, rfl⟩ := Prod.mk.inj (Option.some.inj hread)
    have hlast := htilde (bare word) (by simp)
    rw [hasTilde_bare, beq_eq_false_iff_ne] at hlast
    exact ⟨hne, hbare, hhash, hlast⟩
  · intro hword
    unfold read
    rw [tokens_bare hbefore hword.ne_nil hword.bare hword.hash]
    simp [redirections, hasTilde_literal hprog.literal, hasTilde_literal hword,
      isPattern_plain hprog.pattern, text_bare, hprog.assignment, hprog.reserved]

-- A text behind the program and a blank is its argument exactly if it is a literal word and no
-- pattern.
theorem read_argument_iff (hprog : Program prog)
    (hbefore : start.scan before = some ⟨.plain, [.word (bare prog)], .nothing⟩) :
    read (before ++ word) = some ⟨[prog, word], []⟩ ↔
      Literal word ∧ ∀ c ∈ word, c ∉ ['*', '?', '['] := by
  constructor
  · intro h
    obtain ⟨toks, words, outputs, htoks, hwords, htilde, hpattern, hargv, -⟩ := read_cases h
    obtain ⟨toks', htoks', hweight⟩ := weight_of_read h
    obtain ⟨hbare, hhash⟩ := bare_of_tokens hbefore htoks' (by
      rw [hweight]
      simp [weight, length_bare])
    have hne : word ≠ [] := by
      rintro rfl
      rw [tokens_start hbefore] at htoks
      obtain rfl := Option.some.inj htoks
      have hread : some ([bare prog], []) = some (words, outputs) := hwords
      obtain ⟨rfl, rfl⟩ := Prod.mk.inj (Option.some.inj hread)
      exact absurd (congrArg List.length hargv) (by simp)
    rw [tokens_bare hbefore hne hbare hhash] at htoks
    obtain rfl := Option.some.inj htoks
    have hread : some ([bare prog, bare word], []) = some (words, outputs) := hwords
    obtain ⟨rfl, rfl⟩ := Prod.mk.inj (Option.some.inj hread)
    have hlast := htilde (bare word) (by simp)
    have hplain := hpattern (bare word) (by simp)
    rw [hasTilde_bare, beq_eq_false_iff_ne] at hlast
    rw [isPattern_bare, List.any_eq_false] at hplain
    refine ⟨⟨hne, hbare, hhash, hlast⟩, fun c hc hmem => ?_⟩
    exact hplain c hc (decide_eq_true hmem)
  · rintro ⟨hword, hpattern⟩
    unfold read
    rw [tokens_bare hbefore hword.ne_nil hword.bare hword.hash]
    simp [redirections, hasTilde_literal hprog.literal, hasTilde_literal hword,
      isPattern_plain hprog.pattern, isPattern_plain hpattern, text_bare, hprog.assignment,
      hprog.reserved]

end Words

end VMForge.Shell
