import Mathlib.Data.List.TakeWhile

namespace VMForge.OptionText

-- The option syntax of QEMU: `key=value` settings with commas between them. A comma of a value
-- is written twice, and the key of the first setting may be left out where it is understood.
structure Setting where
  key : List Char
  value : Option (List Char)
deriving DecidableEq

-- One value, and what is behind the comma that ends it.
def takeValue : List Char → List Char × List Char
  | [] => ([], [])
  | ',' :: ',' :: rest => (',' :: (takeValue rest).1, (takeValue rest).2)
  | ',' :: rest => ([], rest)
  | c :: rest => (c :: (takeValue rest).1, (takeValue rest).2)

def inKey (c : Char) : Bool := c != '=' && c != ','

-- Every turn takes up a character.
def settingsLoop : Nat → Option (List Char) → List Char → List Setting
  | 0, _, _ => []
  | _, _, [] => []
  | fuel + 1, understood, text =>
      match text.dropWhile inKey with
      | '=' :: rest =>
          ⟨text.takeWhile inKey, some (takeValue rest).1⟩ ::
            settingsLoop fuel none (takeValue rest).2
      | rest =>
          match understood with
          | some key => ⟨key, some (takeValue text).1⟩ :: settingsLoop fuel none (takeValue text).2
          | none => ⟨text.takeWhile inKey, none⟩ :: settingsLoop fuel none rest.tail

def settings (understood : Option (List Char)) (text : List Char) : List Setting :=
  settingsLoop text.length understood text

-- A setting with a value, written without doubling a comma.
def plain (key value : List Char) : List Char := key ++ '=' :: value

section Values

theorem takeValue_plain {value : List Char} (hvalue : ',' ∉ value) : takeValue value = (value, []) := by
  induction value with
  | nil => rfl
  | cons c value ih =>
      simp only [List.mem_cons, not_or] at hvalue
      rw [takeValue, ih hvalue.2]
      · rintro rest rfl
        exact absurd rfl hvalue.1
      · rintro rfl
        exact absurd rfl hvalue.1

-- A single comma ends a value.
theorem takeValue_comma {value rest : List Char} (hvalue : ',' ∉ value)
    (hrest : rest.head? ≠ some ',') : takeValue (value ++ ',' :: rest) = (value, rest) := by
  induction value with
  | nil =>
      rw [List.nil_append, takeValue]
      rintro rest' rfl
      exact absurd rfl hrest
  | cons c value ih =>
      simp only [List.mem_cons, not_or] at hvalue
      rw [List.cons_append, takeValue, ih hvalue.2]
      · rintro rest rfl
        exact absurd rfl hvalue.1
      · rintro rfl
        exact absurd rfl hvalue.1

-- A comma in a value has taken up two characters.
theorem takeValue_length (text : List Char) :
    (takeValue text).1.length + (takeValue text).1.count ',' + (takeValue text).2.length ≤
      text.length ∧
    ((takeValue text).2 ≠ [] →
      (takeValue text).1.length + (takeValue text).1.count ',' + (takeValue text).2.length <
        text.length) := by
  fun_induction takeValue text with
  | case1 => simp
  | case2 rest ih =>
      simp only [List.length_cons, List.count_cons_self]
      refine ⟨by omega, fun hrest => ?_⟩
      have hless := ih.2 hrest
      omega
  | case3 rest _ => simp
  | case4 c rest _ hc ih =>
      have hne : (c == ',') = false := by
        rw [beq_eq_false_iff_ne]
        exact hc
      simp only [List.length_cons, List.count_cons, hne]
      simp only [Bool.false_eq_true, if_false]
      refine ⟨by omega, fun hrest => ?_⟩
      have hless := ih.2 hrest
      omega

end Values

section Settings

-- The characters that a list of settings has taken up at least, one comma after each counted.
def weight : List Setting → Nat
  | [] => 0
  | s :: rest =>
      s.key.length + (s.value.elim 0 fun v => 1 + v.length + v.count ',') + 1 + weight rest

theorem takeWhile_inKey_dropWhile (text : List Char) :
    (text.takeWhile inKey).length + (text.dropWhile inKey).length = text.length := by
  rw [← List.length_append, List.takeWhile_append_dropWhile]

theorem weight_settingsLoop (fuel : Nat) (text : List Char) :
    weight (settingsLoop fuel none text) ≤ text.length + 1 ∧
      (text = [] → weight (settingsLoop fuel none text) = 0) := by
  induction fuel generalizing text with
  | zero => simp [settingsLoop, weight]
  | succ fuel ih =>
      cases text with
      | nil => simp [settingsLoop, weight]
      | cons c text =>
          refine ⟨?_, fun h => absurd h (List.cons_ne_nil c text)⟩
          have hsplit := takeWhile_inKey_dropWhile (c :: text)
          unfold settingsLoop
          split
          · rename_i rest hrest
            rw [hrest, List.length_cons] at hsplit
            have hvalue := takeValue_length rest
            have hloop := ih (takeValue rest).2
            simp only [weight, Option.elim_some]
            by_cases hnil : (takeValue rest).2 = []
            · have hzero := hloop.2 hnil
              omega
            · have hless := hvalue.2 hnil
              omega
          · rename_i rest hrest
            have hloop := ih ((c :: text).dropWhile inKey).tail
            have htail := List.length_tail (l := (c :: text).dropWhile inKey)
            simp only [weight, Option.elim_none]
            by_cases hnil : ((c :: text).dropWhile inKey).tail = []
            · have hzero := hloop.2 hnil
              omega
            · have hpos : 0 < ((c :: text).dropWhile inKey).tail.length := List.length_pos_iff.mpr hnil
              omega

-- More fuel changes nothing.
theorem settingsLoop_fuel {understood : Option (List Char)} {fuel fuel' : Nat} {text : List Char} (h : text.length ≤ fuel)
    (h' : text.length ≤ fuel') : settingsLoop fuel understood text = settingsLoop fuel' understood text := by
  induction fuel generalizing fuel' understood text with
  | zero =>
      obtain rfl := List.length_eq_zero_iff.mp (Nat.le_zero.mp h)
      cases fuel' <;> rfl
  | succ fuel ih =>
      cases text with
      | nil => cases fuel' <;> rfl
      | cons c text =>
          cases fuel' with
          | zero => exact absurd h' (by simp)
          | succ fuel' =>
              have hsplit := takeWhile_inKey_dropWhile (c :: text)
              have htail := List.length_tail (l := (c :: text).dropWhile inKey)
              have hvalue := takeValue_length (c :: text)
              rw [List.length_cons] at h h' hsplit hvalue
              unfold settingsLoop
              split
              · rename_i rest hrest
                have hafter := takeValue_length rest
                rw [hrest, List.length_cons] at hsplit
                rw [@ih none fuel' (takeValue rest).2 (by omega) (by omega)]
              · split
                · have hless : (takeValue (c :: text)).2.length ≤ text.length := by
                    by_cases hnil : (takeValue (c :: text)).2 = []
                    · rw [hnil]
                      exact Nat.zero_le _
                    · have := hvalue.2 hnil
                      omega
                  rw [@ih none fuel' (takeValue (c :: text)).2 (by omega) (by omega)]
                · rw [@ih none fuel' ((c :: text).dropWhile inKey).tail (by omega) (by omega)]

theorem weight_settings (text : List Char) : weight (settings none text) ≤ text.length + 1 :=
  (weight_settingsLoop text.length text).1

-- Where the first setting has a key of its own, none is understood.
theorem settings_of_key {understood : Option (List Char)} {text : List Char}
    (h : (text.dropWhile inKey).head? = some '=') : settings understood text = settings none text := by
  cases text with
  | nil => cases h
  | cons c text =>
      unfold settings
      rw [List.length_cons]
      unfold settingsLoop
      split
      · rfl
      · rename_i hnot
        obtain ⟨rest, hrest⟩ := List.head?_eq_some_iff.mp h
        exact absurd hrest (hnot rest)

theorem settings_of_not_key {key text : List Char} (hne : text ≠ [])
    (h : (text.dropWhile inKey).head? ≠ some '=') :
    settings (some key) text = ⟨key, some (takeValue text).1⟩ :: settings none (takeValue text).2 := by
  obtain ⟨c, cs, rfl⟩ := List.exists_cons_of_ne_nil hne
  have hvalue := takeValue_length (c :: cs)
  rw [List.length_cons] at hvalue
  have hless : (takeValue (c :: cs)).2.length ≤ cs.length := by
    by_cases hnil : (takeValue (c :: cs)).2 = []
    · rw [hnil]
      exact Nat.zero_le _
    · have := hvalue.2 hnil
      omega
  unfold settings
  rw [List.length_cons, settingsLoop]
  · split
    · rename_i rest hrest
      rw [hrest] at h
      exact absurd rfl h
    · rw [settingsLoop_fuel hless (Nat.le_refl _)]
  · exact List.cons_ne_nil c cs

theorem weight_understood {key value text : List Char} {rest : List Setting}
    (h : settings (some key) text = ⟨key, some value⟩ :: rest)
    (hkey : (text.dropWhile inKey).head? ≠ some '=') :
    value.length + value.count ',' + weight rest ≤ text.length := by
  have hne : text ≠ [] := by
    rintro rfl
    cases h
  have heq := @settings_of_not_key key text hne hkey
  rw [h, List.cons.injEq, Setting.mk.injEq] at heq
  obtain ⟨⟨-, hvalue⟩, rfl⟩ := heq
  obtain rfl := Option.some.inj hvalue
  have hlen := takeValue_length text
  have hloop := weight_settingsLoop (takeValue text).2.length (takeValue text).2
  rw [← settings] at hloop
  by_cases hnil : (takeValue text).2 = []
  · have hzero := hloop.2 hnil
    omega
  · have hless := hlen.2 hnil
    omega

-- An equals sign in a value makes a key of what is before it.
theorem dropWhile_equals {value : List Char} (hcomma : ',' ∉ value) (hequals : '=' ∈ value)
    (rest : List Char) : ((value ++ rest).dropWhile inKey).head? = some '=' := by
  induction value with
  | nil => cases hequals
  | cons c value ih =>
      simp only [List.mem_cons, not_or] at hcomma
      by_cases hc : c = '='
      · rw [hc]
        rfl
      · have hkey : inKey c = true := by
          unfold inKey
          rw [Bool.and_eq_true, bne_iff_ne, bne_iff_ne]
          exact ⟨hc, Ne.symm hcomma.1⟩
        rw [List.cons_append, List.dropWhile_cons_of_pos hkey]
        exact ih hcomma.2 ((List.mem_cons.mp hequals).resolve_left (Ne.symm hc))

end Settings

section Plain

variable {understood : Option (List Char)} {key value rest : List Char}

theorem dropWhile_plain (hkey : ∀ c ∈ key, inKey c = true) :
    (key ++ '=' :: rest).dropWhile inKey = '=' :: rest := by
  rw [List.dropWhile_append_of_pos hkey]
  rfl

theorem takeWhile_plain (hkey : ∀ c ∈ key, inKey c = true) :
    (key ++ '=' :: rest).takeWhile inKey = key := by
  rw [List.takeWhile_append_of_pos hkey]
  exact List.append_nil key

theorem settings_cons (hkey : ∀ c ∈ key, inKey c = true) :
    settings understood (key ++ '=' :: rest) =
      ⟨key, some (takeValue rest).1⟩ :: settings none (takeValue rest).2 := by
  have hlen := takeValue_length rest
  obtain ⟨c, text, htext⟩ := List.exists_cons_of_ne_nil (l := key ++ '=' :: rest) (by simp)
  have hcount := congrArg List.length htext
  rw [List.length_append, List.length_cons, List.length_cons] at hcount
  unfold settings
  rw [htext, List.length_cons, settingsLoop, ← htext, dropWhile_plain hkey]
  · simp only [takeWhile_plain hkey]
    rw [settingsLoop_fuel (by omega) (Nat.le_refl _)]
  · exact List.cons_ne_nil c text

-- A setting, and the next one behind a comma.
theorem settings_plain_comma (hkey : ∀ c ∈ key, inKey c = true) (hvalue : ',' ∉ value)
    (hrest : rest.head? ≠ some ',') :
    settings understood (plain key value ++ ',' :: rest) = ⟨key, some value⟩ :: settings none rest := by
  have hcons := @settings_cons understood key (value ++ ',' :: rest) hkey
  rw [takeValue_comma hvalue hrest] at hcons
  rw [plain, List.append_assoc]
  exact hcons

theorem settings_plain (hkey : ∀ c ∈ key, inKey c = true) (hvalue : ',' ∉ value) :
    settings understood (plain key value) = [⟨key, some value⟩] := by
  rw [plain, settings_cons hkey, takeValue_plain hvalue]
  rfl

theorem inKey_of_not (hequals : '=' ∉ value) (hcomma : ',' ∉ value) : ∀ c ∈ value, inKey c = true := by
  intro c hc
  unfold inKey
  rw [Bool.and_eq_true, bne_iff_ne, bne_iff_ne]
  constructor
  · rintro rfl
    exact hequals hc
  · rintro rfl
    exact hcomma hc

-- A first value without a key.
theorem settings_understood_comma (hequals : '=' ∉ value) (hcomma : ',' ∉ value)
    (hrest : rest.head? ≠ some ',') :
    settings (some key) (value ++ ',' :: rest) = ⟨key, some value⟩ :: settings none rest := by
  have hdrop : (value ++ ',' :: rest).dropWhile inKey = ',' :: rest := by
    rw [List.dropWhile_append_of_pos (inKey_of_not hequals hcomma)]
    rfl
  rw [settings_of_not_key, takeValue_comma hcomma hrest]
  · simp
  · rw [hdrop]
    exact fun h => absurd (Option.some.inj h) (by decide)

theorem settings_understood (hequals : '=' ∉ value) (hcomma : ',' ∉ value) (hne : value ≠ []) :
    settings (some key) value = [⟨key, some value⟩] := by
  have hdrop : value.dropWhile inKey = [] := by
    rw [List.dropWhile_eq_nil_iff]
    exact inKey_of_not hequals hcomma
  rw [settings_of_not_key hne, takeValue_plain hcomma]
  · rfl
  · rw [hdrop]
    decide

end Plain

end VMForge.OptionText
