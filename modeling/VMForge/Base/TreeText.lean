import VMForge.Base.Ancestry

namespace VMForge.TreeText

open Relation Ancestry

abbrev Line := List Char

section Drawing

variable {α : Type} (kids : α → List α) (label : α → Line)

def connector (last : Bool) : Line := if last = true then "\x60-- ".toList else "|-- ".toList

def padding (last : Bool) : Line := if last = true then "    ".toList else "|   ".toList

-- The lines below a node, one for each child and then those below the child.
def walkChildren (walk : α → Line → Option (List Line)) (front : Line) :
    List α → Option (List Line)
  | [] => some []
  | child :: rest => do
      let last := rest.isEmpty
      let below ← walk child (front ++ padding last)
      let others ← walkChildren walk front rest
      return (front ++ connector last ++ label child) :: (below ++ others)

-- `fuel` bounds the depth of the tree; running out of it stands for a walk that never ends.
def walk : Nat → α → Line → Option (List Line)
  | 0, _, _ => none
  | fuel + 1, node, front => walkChildren label (walk fuel) front (kids node)

-- The trees of some roots, one below the other.
def draw (fuel : Nat) : List α → Option (List Line)
  | [] => some []
  | root :: rest => do
      let below ← walk kids label fuel root []
      let others ← draw fuel rest
      return label root :: (below ++ others)

end Drawing

section Reading

def isUnit (cs : Line) : Bool :=
  cs == "|   ".toList || cs == "    ".toList || cs == "|-- ".toList || cs == "\x60-- ".toList

-- How many units of four characters a line starts with, and what is behind them.
def readLine : Line → Nat × Line
  | a :: b :: c :: d :: rest =>
      if isUnit [a, b, c, d] = true then ((readLine rest).1 + 1, (readLine rest).2)
      else (0, a :: b :: c :: d :: rest)
  | line => (0, line)

-- The parent of a line is the nearest one before it that is less deep by one.
def parents {α : Type} : List (Nat × α) → List (Nat × α) → List (α × Option α)
  | _, [] => []
  | before, e :: rest =>
      (e.2, (before.find? fun b => b.1 + 1 = e.1).map Prod.snd) :: parents (e :: before) rest

end Reading

section Lines

-- A label does not start like a unit.
def Plain (line : Line) : Prop := ∀ c, line.head? = some c → c ≠ ' ' ∧ c ≠ '|' ∧ c ≠ '\x60'

theorem isUnit_connector (last : Bool) : isUnit (connector last) = true := by
  cases last <;> decide

theorem isUnit_padding (last : Bool) : isUnit (padding last) = true := by
  cases last <;> decide

theorem isUnit_cases {cs : Line} (h : isUnit cs = true) :
    ∃ a b c d, cs = [a, b, c, d] ∧ (a = ' ' ∨ a = '|' ∨ a = '\x60') := by
  simp only [isUnit, Bool.or_eq_true, beq_iff_eq] at h
  obtain ((rfl | rfl) | rfl) | rfl := h
  · exact ⟨_, _, _, _, rfl, by decide⟩
  · exact ⟨_, _, _, _, rfl, by decide⟩
  · exact ⟨_, _, _, _, rfl, by decide⟩
  · exact ⟨_, _, _, _, rfl, by decide⟩

theorem readLine_unit {cs : Line} (h : isUnit cs = true) (line : Line) :
    readLine (cs ++ line) = ((readLine line).1 + 1, (readLine line).2) := by
  obtain ⟨a, b, c, d, rfl, -⟩ := isUnit_cases h
  exact if_pos h

theorem readLine_plain {line : Line} (h : Plain line) : readLine line = (0, line) := by
  unfold readLine
  split
  · rename_i a b c d rest
    split
    · rename_i hunit
      obtain ⟨_, _, _, _, heq, hcases⟩ := isUnit_cases hunit
      obtain ⟨rfl, -⟩ := List.cons.inj heq
      obtain ⟨hspace, hbar, htick⟩ := h a rfl
      obtain h | h | h := hcases
      · exact absurd h hspace
      · exact absurd h hbar
      · exact absurd h htick
    · rfl
  · rfl

-- A line has the characters of the units and of its label.
theorem readLine_mem {line : Line} {c : Char} (h : c ∈ line) :
    c ∈ (readLine line).2 ∨ c ∈ [' ', '|', '-', '\x60'] := by
  induction line using readLine.induct with
  | case1 a b d e rest hunit ih =>
      rw [readLine, if_pos hunit]
      have hunits : ∀ c ∈ [a, b, d, e], c ∈ [' ', '|', '-', '\x60'] := by
        simp only [isUnit, Bool.or_eq_true, beq_iff_eq] at hunit
        obtain ((heq | heq) | heq) | heq := hunit
        · rw [heq]
          decide
        · rw [heq]
          decide
        · rw [heq]
          decide
        · rw [heq]
          decide
      have hsplit : a :: b :: d :: e :: rest = [a, b, d, e] ++ rest := rfl
      rw [hsplit] at h
      obtain h | h := List.mem_append.mp h
      · exact Or.inr (hunits c h)
      · exact ih h
  | case2 a b d e rest hunit =>
      rw [readLine, if_neg hunit]
      exact Or.inl h
  | case3 line hshort =>
      rw [readLine]
      · exact Or.inl h
      · exact hshort

-- What stands before the label is made of units.
def Units (n : Nat) (front : Line) : Prop :=
  ∀ line, readLine (front ++ line) = ((readLine line).1 + n, (readLine line).2)

theorem Units.nil : Units 0 [] := fun _ => rfl

theorem Units.concat {n : Nat} {front cs : Line} (h : Units n front) (hcs : isUnit cs = true) :
    Units (n + 1) (front ++ cs) := by
  intro line
  rw [List.append_assoc, h, readLine_unit hcs, Nat.add_assoc, Nat.add_comm 1 n]

end Lines

section Order

variable {α : Type} {kids : α → List α} {label : α → Line}

-- The nodes of some trees with their depths, every one before the nodes below it.
inductive Preorder (kids : α → List α) : Nat → List α → List (Nat × α) → Prop where
  | nil {d : Nat} : Preorder kids d [] []
  | cons {d : Nat} {a : α} {rest : List α} {below others : List (Nat × α)}
      (hbelow : Preorder kids (d + 1) (kids a) below) (hothers : Preorder kids d rest others) :
      Preorder kids d (a :: rest) ((d, a) :: (below ++ others))

-- A node's line says its depth and its label.
def Shows (label : α → Line) (ls : List Line) (entries : List (Nat × α)) : Prop :=
  ls.map readLine = entries.map fun e => (e.1, label e.2)

theorem Shows.append {ls ls' : List Line} {es es' : List (Nat × α)} (h : Shows label ls es)
    (h' : Shows label ls' es') : Shows label (ls ++ ls') (es ++ es') := by
  unfold Shows at *
  rw [List.map_append, List.map_append, h, h']

theorem walkChildren_shows {fuel d : Nat}
    (ih : ∀ a front ls, Units (d + 1) front → walk kids label fuel a front = some ls →
      ∃ es, Preorder kids (d + 2) (kids a) es ∧ Shows label ls es)
    {front : Line} (hfront : Units d front) {nodes : List α} {ls : List Line}
    (hplain : ∀ c ∈ nodes, Plain (label c))
    (h : walkChildren label (walk kids label fuel) front nodes = some ls) :
    ∃ es, Preorder kids (d + 1) nodes es ∧ Shows label ls es := by
  induction nodes generalizing ls with
  | nil =>
      obtain rfl := Option.some.inj h
      exact ⟨[], .nil, rfl⟩
  | cons child rest ihn =>
      obtain ⟨below, hbelow, h⟩ := Option.bind_eq_some_iff.mp h
      obtain ⟨others, hothers, h⟩ := Option.bind_eq_some_iff.mp h
      obtain rfl := Option.some.inj h
      obtain ⟨es, hes, hshows⟩ := ih child _ below (hfront.concat (isUnit_padding _)) hbelow
      obtain ⟨es', hes', hshows'⟩ := ihn (fun c hc => hplain c (List.mem_cons_of_mem _ hc)) hothers
      refine ⟨_, .cons hes hes', ?_⟩
      have hline : readLine (front ++ connector rest.isEmpty ++ label child) =
          (d + 1, label child) := by
        rw [hfront.concat (isUnit_connector _), readLine_plain (hplain child List.mem_cons_self),
          Nat.zero_add]
      unfold Shows
      rw [List.map_cons, List.map_cons, hline]
      exact congrArg _ (hshows.append hshows')

theorem walk_shows (hplain : ∀ a, ∀ c ∈ kids a, Plain (label c)) {fuel d : Nat} {a : α} {front : Line}
    {ls : List Line} (hfront : Units d front) (h : walk kids label fuel a front = some ls) :
    ∃ es, Preorder kids (d + 1) (kids a) es ∧ Shows label ls es := by
  induction fuel generalizing d a front ls with
  | zero => cases h
  | succ fuel ih => exact walkChildren_shows (fun _ _ _ hf hw => ih hf hw) hfront (hplain a) h

theorem draw_shows (hplain : ∀ a, ∀ c ∈ kids a, Plain (label c)) {fuel : Nat} {roots : List α}
    {ls : List Line} (hroots : ∀ r ∈ roots, Plain (label r))
    (h : draw kids label fuel roots = some ls) :
    ∃ es, Preorder kids 0 roots es ∧ Shows label ls es := by
  induction roots generalizing ls with
  | nil =>
      obtain rfl := Option.some.inj h
      exact ⟨[], .nil, rfl⟩
  | cons root rest ih =>
      obtain ⟨below, hbelow, h⟩ := Option.bind_eq_some_iff.mp h
      obtain ⟨others, hothers, h⟩ := Option.bind_eq_some_iff.mp h
      obtain rfl := Option.some.inj h
      obtain ⟨es, hes, hshows⟩ := walk_shows hplain Units.nil hbelow
      obtain ⟨es', hes', hshows'⟩ := ih (fun r hr => hroots r (List.mem_cons_of_mem _ hr)) hothers
      refine ⟨_, .cons hes hes', ?_⟩
      unfold Shows
      rw [List.map_cons, List.map_cons, readLine_plain (hroots root List.mem_cons_self)]
      exact congrArg _ (hshows.append hshows')

variable {up : α → Option α} {nodes : List α}

-- The children of a node are the nodes whose parent it is.
def Inverse (up : α → Option α) (kids : α → List α) : Prop := ∀ a c, c ∈ kids a ↔ up c = some a

theorem Preorder.depth {d : Nat} {roots : List α} {es : List (Nat × α)}
    (h : Preorder kids d roots es) : ∀ e ∈ es, d ≤ e.1 := by
  induction h with
  | nil => exact fun e he => absurd he List.not_mem_nil
  | @cons d a rest below others _ _ ihbelow ihothers =>
      intro e he
      obtain rfl | he := List.mem_cons.mp he
      · exact Nat.le_refl _
      · obtain he | he := List.mem_append.mp he
        · have hd := ihbelow e he
          omega
        · exact ihothers e he

-- The nodes of a tree are those from which its root is reached.
theorem Preorder.mem_iff (hkids : Inverse up kids) {d : Nat} {roots : List α}
    {es : List (Nat × α)} (h : Preorder kids d roots es) (x : α) :
    x ∈ es.map Prod.snd ↔ ∃ r ∈ roots, ReflTransGen (Parent up) x r := by
  induction h with
  | nil => simp
  | @cons d a rest below others _ _ ihbelow ihothers =>
      rw [List.map_cons, List.map_append, List.mem_cons, List.mem_append, ihbelow, ihothers]
      constructor
      · rintro (rfl | ⟨c, hc, hxc⟩ | ⟨r, hr, hxr⟩)
        · exact ⟨x, List.mem_cons_self, ReflTransGen.refl⟩
        · exact ⟨a, List.mem_cons_self, hxc.tail ((hkids a c).mp hc)⟩
        · exact ⟨r, List.mem_cons_of_mem _ hr, hxr⟩
      · rintro ⟨r, hr, hxr⟩
        obtain rfl | hr := List.mem_cons.mp hr
        · obtain heq | ⟨c, hxc, hc⟩ := hxr.cases_tail
          · exact Or.inl heq.symm
          · exact Or.inr (Or.inl ⟨c, (hkids r c).mpr hc, hxc⟩)
        · exact Or.inr (Or.inr ⟨r, hr, hxr⟩)

-- Trees on siblings have no node in common, and a tree has no node twice.
theorem Preorder.nodup (hwood : Wooded up nodes) (hkids : Inverse up kids)
    (hdistinct : ∀ a, (kids a).Nodup) {d : Nat} {roots : List α} {es : List (Nat × α)}
    (h : Preorder kids d roots es) (hroots : roots.Nodup) {p : Option α}
    (hsiblings : ∀ r ∈ roots, up r = p) : (es.map Prod.snd).Nodup := by
  induction h generalizing p with
  | nil => exact List.nodup_nil
  | @cons d a rest below others hbelow hothers ihbelow ihothers =>
      obtain ⟨hnot, hrest⟩ := List.nodup_cons.mp hroots
      have hup := hsiblings a List.mem_cons_self
      have hreach : ∀ x ∈ below.map Prod.snd, ReflTransGen (Parent up) x a := by
        intro x hx
        obtain ⟨c, hc, hxc⟩ := (hbelow.mem_iff hkids x).mp hx
        exact hxc.tail ((hkids a c).mp hc)
      have hapart : ∀ x ∈ others.map Prod.snd, ¬ReflTransGen (Parent up) x a := by
        intro x hx hxa
        obtain ⟨r, hr, hxr⟩ := (hothers.mem_iff hkids x).mp hx
        have hsame := hup.trans (hsiblings r (List.mem_cons_of_mem _ hr)).symm
        obtain rfl := hwood.disjoint_of_siblings hsame hxa hxr
        exact hnot hr
      rw [List.map_cons, List.map_append, List.nodup_cons, List.mem_append, List.nodup_append]
      refine ⟨?_, ihbelow (hdistinct a) fun c hc => (hkids a c).mp hc,
        ihothers hrest fun r hr => hsiblings r (List.mem_cons_of_mem _ hr), ?_⟩
      · rintro (ha | ha)
        · obtain ⟨c, hc, hac⟩ := (hbelow.mem_iff hkids a).mp ha
          exact hwood.acyclic a (TransGen.tail' hac ((hkids a c).mp hc))
        · exact hapart a ha ReflTransGen.refl
      · rintro x hx y hy rfl
        exact hapart x hy (hreach x hx)

-- Reading back finds the parent of every node.
theorem parents_preorder (hkids : Inverse up kids) {d : Nat} {roots : List α}
    {es : List (Nat × α)} (h : Preorder kids d roots es) (before rest : List (Nat × α))
    (hroots : ∀ r ∈ roots, up r = (before.find? fun b => b.1 + 1 = d).map Prod.snd) :
    parents before (es ++ rest) =
      es.map (fun e => (e.2, up e.2)) ++ parents (es.reverse ++ before) rest := by
  induction h generalizing before rest with
  | nil => rfl
  | @cons d a siblings below others hbelow hothers ihbelow ihothers =>
      have hup := hroots a List.mem_cons_self
      have hfind : ((d, a) :: before).find? (fun b => b.1 + 1 = d + 1) = some (d, a) := by
        rw [List.find?_cons_of_pos (by simp)]
      have hskip : (below.reverse ++ (d, a) :: before).find? (fun b => b.1 + 1 = d) =
          before.find? fun b => b.1 + 1 = d := by
        have hdeep : below.reverse.find? (fun b => b.1 + 1 = d) = none := by
          refine List.find?_eq_none.mpr fun e he => ?_
          have hd := hbelow.depth e (List.mem_reverse.mp he)
          simp only [decide_eq_true_eq]
          omega
        rw [List.find?_append, hdeep, Option.none_or, List.find?_cons_of_neg]
        simp
      have hinner := ihbelow ((d, a) :: before) (others ++ rest) (by
        intro c hc
        rw [hfind, (hkids a c).mp hc]
        rfl)
      have houter := ihothers (below.reverse ++ (d, a) :: before) rest (by
        intro r hr
        rw [hskip, hroots r (List.mem_cons_of_mem _ hr)])
      rw [List.cons_append, parents, ← hup, List.append_assoc, hinner, houter]
      simp

theorem parents_map {γ : Type} (g : α → γ) (before es : List (Nat × α)) :
    parents (before.map fun e => (e.1, g e.2)) (es.map fun e => (e.1, g e.2)) =
      (parents before es).map fun node => (g node.1, node.2.map g) := by
  induction es generalizing before with
  | nil => rfl
  | cons e es ih =>
      have hrest := ih (e :: before)
      rw [List.map_cons] at hrest
      rw [List.map_cons, parents, parents, hrest, List.map_cons, List.find?_map, Option.map_map,
        Option.map_map]
      rfl

end Order

section Totality

variable {α : Type} {kids : α → List α} {label : α → Line} {up : α → Option α} {nodes : List α}

theorem walkChildren_isSome {step : α → Line → Option (List Line)} {front : Line}
    {cs : List α} (h : ∀ c ∈ cs, ∀ front, ∃ ls, step c front = some ls) :
    ∃ ls, walkChildren label step front cs = some ls := by
  induction cs with
  | nil => exact ⟨[], rfl⟩
  | cons c cs ih =>
      obtain ⟨below, hbelow⟩ := h c List.mem_cons_self (front ++ padding cs.isEmpty)
      obtain ⟨others, hothers⟩ := ih fun c' hc' => h c' (List.mem_cons_of_mem _ hc')
      rw [walkChildren, hbelow, hothers]
      exact ⟨_, rfl⟩

-- A walk never needs more fuel than there are nodes.
theorem walk_isSome (hwood : Wooded up nodes) (hkids : Inverse up kids)
    (hnodes : ∀ a c, c ∈ kids a → c ∈ nodes) {fuel : Nat} {path : List α} {a : α}
    (t : Trail (Function.swap (Parent up)) nodes path a)
    (hfuel : nodes.length < fuel + path.length) (front : Line) :
    ∃ ls, walk kids label fuel a front = some ls := by
  induction fuel generalizing path a front with
  | zero =>
      have hlen := t.length_le
      omega
  | succ fuel ih =>
      refine walkChildren_isSome fun c hc front' => ?_
      have hstep := t.step hwood.acyclic_down ((hkids a c).mp hc) (hnodes a c hc)
      refine ih hstep ?_ front'
      rw [List.length_cons]
      omega

theorem draw_isSome (hwood : Wooded up nodes) (hkids : Inverse up kids)
    (hnodes : ∀ a c, c ∈ kids a → c ∈ nodes) {roots : List α} (hroots : ∀ r ∈ roots, r ∈ nodes) :
    ∃ ls, draw kids label (nodes.length + 1) roots = some ls := by
  induction roots with
  | nil => exact ⟨[], rfl⟩
  | cons root rest ih =>
      have hroot := hroots root List.mem_cons_self
      obtain ⟨below, hbelow⟩ := @walk_isSome _ _ label _ _ hwood hkids hnodes
        (nodes.length + 1) [root] root (Trail.single hroot) (by omega) []
      obtain ⟨others, hothers⟩ := ih fun r hr => hroots r (List.mem_cons_of_mem _ hr)
      rw [draw, hbelow, hothers]
      exact ⟨_, rfl⟩

end Totality

end VMForge.TreeText
