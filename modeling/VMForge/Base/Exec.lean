import Mathlib.Order.Defs.Unbundled

namespace VMForge

-- A computation that reads and writes a state and may raise. What it did to the state
-- before it raised stays done.
def Exec (σ ε α : Type) : Type := σ → Except ε α × σ

namespace Exec

variable {σ ε α γ : Type}

instance : Monad (Exec σ ε) where
  pure a := fun s => (.ok a, s)
  bind x f := fun s =>
    match x s with
    | (.ok a, s') => f a s'
    | (.error e, s') => (.error e, s')

def raise (e : ε) : Exec σ ε α := fun s => (.error e, s)

def read : Exec σ ε σ := fun s => (.ok s, s)

def put (s : σ) : Exec σ ε Unit := fun _ => (.ok (), s)

def update (f : σ → σ) : Exec σ ε Unit := fun s => (.ok (), f s)

def ofExcept : Except ε α → Exec σ ε α
  | .ok a => pure a
  | .error e => raise e

-- `if cond: raise e`
def raiseIf (cond : Bool) (e : ε) : Exec σ ε Unit := if cond then raise e else pure ()

-- `if cond: x`
def runIf (cond : Bool) (x : Exec σ ε Unit) : Exec σ ε Unit := if cond then x else pure ()

-- `try: x` followed by an `except` clause that takes every exception.
def tryExcept (x : Exec σ ε α) (handler : ε → Exec σ ε α) : Exec σ ε α := fun s =>
  match x s with
  | (.ok a, s') => (.ok a, s')
  | (.error e, s') => handler e s'

-- `let result = x;`: the outcome as a value.
def attempt (x : Exec σ ε α) : Exec σ ε (Except ε α) := fun s => (.ok (x s).1, (x s).2)

-- `try: x finally: cleanup`. An exception of the clean-up replaces the outcome of `x`.
def tryFinally (x : Exec σ ε α) (cleanup : Exec σ ε Unit) : Exec σ ε α := fun s =>
  match x s with
  | (r, s') =>
    match cleanup s' with
    | (.ok _, s'') => (r, s'')
    | (.error e, s'') => (.error e, s'')

-- `for a in as: body(a)`
def forEach (as : List γ) (body : γ → Exec σ ε Unit) : Exec σ ε Unit :=
  match as with
  | [] => pure ()
  | a :: rest => do
      body a
      forEach rest body

-- `[body(a) for a in as]`
def mapEach (as : List γ) (body : γ → Exec σ ε α) : Exec σ ε (List α) :=
  match as with
  | [] => pure []
  | a :: rest => do
      let b ← body a
      let bs ← mapEach rest body
      pure (b :: bs)

-- `for a in as: acc = body(acc, a)`
def foldEach (as : List γ) (acc : α) (body : α → γ → Exec σ ε α) : Exec σ ε α :=
  match as with
  | [] => pure acc
  | a :: rest => do
      let acc' ← body acc a
      foldEach rest acc' body

-- Weakest precondition with one postcondition for a normal return and one for a raise.
def wp (x : Exec σ ε α) (Q : α → σ → Prop) (E : ε → σ → Prop) (s : σ) : Prop :=
  match x s with
  | (.ok a, s') => Q a s'
  | (.error e, s') => E e s'

section Rules

variable {Q : α → σ → Prop} {E : ε → σ → Prop} {s : σ}

theorem wp_ok {x : Exec σ ε α} {a : α} {s' : σ} (h : wp x Q E s) (hx : x s = (.ok a, s')) :
    Q a s' := by
  simpa only [wp, hx] using h

theorem wp_error {x : Exec σ ε α} {e : ε} {s' : σ} (h : wp x Q E s)
    (hx : x s = (.error e, s')) : E e s' := by
  simpa only [wp, hx] using h

theorem wp_intro {x : Exec σ ε α} (hok : ∀ a s', x s = (.ok a, s') → Q a s')
    (herr : ∀ e s', x s = (.error e, s') → E e s') : wp x Q E s := by
  unfold wp
  split
  · rename_i a s' hx; exact hok a s' hx
  · rename_i e s' hx; exact herr e s' hx

theorem wp_mono {x : Exec σ ε α} {Q' : α → σ → Prop} {E' : ε → σ → Prop}
    (h : wp x Q E s) (hQ : ∀ a s', Q a s' → Q' a s') (hE : ∀ e s', E e s' → E' e s') :
    wp x Q' E' s :=
  wp_intro (fun _ _ hx => hQ _ _ (wp_ok h hx)) (fun _ _ hx => hE _ _ (wp_error h hx))

@[simp] theorem wp_bind {x : Exec σ ε γ} {f : γ → Exec σ ε α} :
    wp (x >>= f) Q E = wp x (fun a => wp (f a) Q E) E := by
  funext s
  simp only [wp, bind]
  rcases x s with ⟨_ | _, _⟩ <;> rfl

-- The loop rule: `I` holds of what is done and what is left, before each turn.
theorem wp_forEach {Q : Unit → σ → Prop} {body : γ → Exec σ ε Unit}
    (I : List γ → List γ → σ → Prop) (as : List γ)
    (hstep : ∀ done a rest t, as = done ++ a :: rest → I done (a :: rest) t →
      wp (body a) (fun _ => I (done ++ [a]) rest) E t)
    (hend : ∀ t, I as [] t → Q () t) (hstart : I [] as s) : wp (forEach as body) Q E s := by
  have hloop : ∀ (rest done : List γ) (t : σ), as = done ++ rest → I done rest t →
      wp (forEach rest body) Q E t := by
    intro rest
    induction rest with
    | nil =>
        intro done t has hI
        rw [List.append_nil] at has
        subst has
        exact hend t hI
    | cons a rest ih =>
        intro done t has hI
        simp only [forEach, wp_bind]
        refine wp_mono (hstep done a rest t has hI) (fun _ t' hI' => ?_) (fun _ _ h => h)
        exact ih (done ++ [a]) t' (by simp [has]) hI'
  exact hloop as [] s rfl hstart

-- The rule for a loop with an accumulator: `I` holds of what is done, before each turn.
theorem wp_foldEach {body : α → γ → Exec σ ε α} (I : List γ → α → σ → Prop) (as : List γ) {acc : α}
    (hstep : ∀ done a rest b t, as = done ++ a :: rest → I done b t →
      wp (body b a) (I (done ++ [a])) E t)
    (hend : ∀ b t, I as b t → Q b t) (hstart : I [] acc s) : wp (foldEach as acc body) Q E s := by
  have hloop : ∀ (rest done : List γ) (b : α) (t : σ), as = done ++ rest → I done b t →
      wp (foldEach rest b body) Q E t := by
    intro rest
    induction rest with
    | nil =>
        intro done b t has hI
        rw [List.append_nil] at has
        subst has
        exact hend b t hI
    | cons a rest ih =>
        intro done b t has hI
        simp only [foldEach, wp_bind]
        refine wp_mono (hstep done a rest b t has hI) (fun b' t' hI' => ?_) (fun _ _ h => h)
        exact ih (done ++ [a]) b' t' (by simp [has]) hI'
  exact hloop as [] acc s rfl hstart

end Rules

-- What a run that returned normally went through, step by step.
section Returns

variable {s s' : σ}

@[simp] theorem pure_eq_ok {a b : α} :
    (pure a : Exec σ ε α) s = (.ok b, s') ↔ a = b ∧ s = s' := by
  simp [pure]

@[simp] theorem raise_eq_ok {e : ε} {b : α} :
    (raise e : Exec σ ε α) s = (.ok b, s') ↔ False := by
  simp [raise]

@[simp] theorem read_eq_ok {t : σ} : (read : Exec σ ε σ) s = (.ok t, s') ↔ s = t ∧ s = s' := by
  simp [read]

@[simp] theorem ofExcept_eq_ok {x : Except ε α} {b : α} :
    (ofExcept x : Exec σ ε α) s = (.ok b, s') ↔ x = .ok b ∧ s = s' := by
  cases x <;> simp [ofExcept, raise, pure]

@[simp] theorem raiseIf_eq_ok {c : Bool} {e : ε} {b : Unit} :
    (raiseIf c e : Exec σ ε Unit) s = (.ok b, s') ↔ c = false ∧ s = s' := by
  cases c <;> simp [raiseIf]

@[simp] theorem bind_eq_ok {x : Exec σ ε γ} {f : γ → Exec σ ε α} {b : α} :
    (x >>= f) s = (.ok b, s') ↔ ∃ a t, x s = (.ok a, t) ∧ f a t = (.ok b, s') := by
  rcases hx : x s with ⟨_ | a, t⟩ <;> simp [bind, hx, and_assoc]

theorem bind_eq_error {x : Exec σ ε γ} {f : γ → Exec σ ε α} {e : ε}
    (h : (x >>= f) s = (.error e, s')) :
    x s = (.error e, s') ∨ ∃ a t, x s = (.ok a, t) ∧ f a t = (.error e, s') := by
  rcases hx : x s with ⟨e' | a, t⟩ <;> simp only [bind, hx] at h
  · exact Or.inl (by simpa using h)
  · exact Or.inr ⟨a, t, rfl, h⟩

theorem bind_of_ok {x : Exec σ ε γ} {f : γ → Exec σ ε α} {a : γ} (hx : x s = (.ok a, s')) :
    (x >>= f) s = f a s' := by
  simp only [bind, hx]

theorem pure_run {a : α} : (pure a : Exec σ ε α) s = (.ok a, s) := rfl

theorem raiseIf_run {c : Bool} {e : ε} :
    (raiseIf c e : Exec σ ε Unit) s = (if c then .error e else .ok (), s) := by
  cases c <;> rfl

@[simp] theorem attempt_run {x : Exec σ ε α} : attempt x s = (.ok (x s).1, (x s).2) := rfl

@[simp] theorem ofExcept_ok {a : α} : (ofExcept (.ok a) : Exec σ ε α) s = (.ok a, s) := rfl

theorem bind_of_error {x : Exec σ ε γ} {f : γ → Exec σ ε α} {e : ε} (hx : x s = (.error e, s')) :
    (x >>= f) s = (.error e, s') := by
  simp only [bind, hx]

theorem read_bind {f : σ → Exec σ ε α} : (read >>= f) s = f s s := rfl

-- An outcome that can be computed is a raise or a normal return.
theorem eq_error_of_isOk {x : Except ε α × σ} (h : x.1.isOk = false) :
    ∃ e, x = (.error e, x.2) := by
  rcases x with ⟨e | a, s⟩
  · exact ⟨e, rfl⟩
  · simp [Except.isOk, Except.toBool] at h

theorem eq_ok_of_isOk {x : Except ε α × σ} (h : x.1.isOk = true) : ∃ a, x = (.ok a, x.2) := by
  rcases x with ⟨e | a, s⟩
  · simp [Except.isOk, Except.toBool] at h
  · exact ⟨a, rfl⟩

theorem tryFinally_eq_ok {x : Exec σ ε α} {cleanup : Exec σ ε Unit} {b : α} :
    tryFinally x cleanup s = (.ok b, s') ↔
      ∃ t, x s = (.ok b, t) ∧ cleanup t = (.ok (), s') := by
  rcases hx : x s with ⟨_ | a, t⟩ <;> rcases hc : cleanup t with ⟨_ | _, u⟩ <;>
    simp [tryFinally, hx, hc, and_assoc]

theorem tryExcept_eq_ok {x : Exec σ ε α} {handler : ε → Exec σ ε α} {b : α} :
    tryExcept x handler s = (.ok b, s') ↔
      x s = (.ok b, s') ∨ ∃ e t, x s = (.error e, t) ∧ handler e t = (.ok b, s') := by
  rcases hx : x s with ⟨_ | a, t⟩ <;> simp [tryExcept, hx, and_assoc]

theorem tryExcept_of_ok {x : Exec σ ε α} {handler : ε → Exec σ ε α} {b : α}
    (hx : x s = (.ok b, s')) : tryExcept x handler s = (.ok b, s') := by
  simp only [tryExcept, hx]

theorem tryExcept_of_error {x : Exec σ ε α} {handler : ε → Exec σ ε α} {e : ε}
    (hx : x s = (.error e, s')) : tryExcept x handler s = handler e s' := by
  simp only [tryExcept, hx]

@[simp] theorem forEach_nil {body : γ → Exec σ ε Unit} : forEach [] body = pure () := rfl

@[simp] theorem forEach_cons {a : γ} {as : List γ} {body : γ → Exec σ ε Unit} :
    forEach (a :: as) body = body a >>= fun _ => forEach as body := rfl

theorem forEach_append {as bs : List γ} {body : γ → Exec σ ε Unit} :
    forEach (as ++ bs) body = forEach as body >>= fun _ => forEach bs body := by
  induction as with
  | nil => rfl
  | cons a as ih =>
      funext s
      rw [List.cons_append, forEach_cons, forEach_cons, ih]
      rcases hb : body a s with ⟨e | _, t⟩
      · rw [bind_of_error hb, bind_of_error (bind_of_error hb)]
      · rw [bind_of_ok hb]
        rcases hl : forEach as body t with ⟨e | _, t'⟩
        · rw [bind_of_error hl, bind_of_error ((bind_of_ok hb).trans hl)]
        · rw [bind_of_ok hl, bind_of_ok ((bind_of_ok hb).trans hl)]

-- A loop whose turns all return and change nothing.
theorem forEach_idle {as : List γ} {body : γ → Exec σ ε Unit}
    (h : ∀ a ∈ as, body a s = (.ok (), s)) : forEach as body s = (.ok (), s) := by
  induction as with
  | nil => rfl
  | cons a as ih =>
      rw [forEach_cons, bind_of_ok (h a List.mem_cons_self)]
      exact ih fun b hb => h b (List.mem_cons_of_mem _ hb)

theorem forEach_map {δ : Type} {f : δ → γ} {as : List δ} {body : γ → Exec σ ε Unit} :
    forEach (as.map f) body = forEach as fun a => body (f a) := by
  induction as with
  | nil => rfl
  | cons a as ih => rw [List.map_cons, forEach_cons, forEach_cons, ih]

-- A loop that returned has run every turn. `R` relates any two states on its way, the earlier
-- to the later.
theorem forEach_turns (R : σ → σ → Prop) (hrefl : ∀ t, R t t)
    (htrans : ∀ {t t' t''}, R t t' → R t' t'' → R t t'') {as : List γ}
    {body : γ → Exec σ ε Unit} {u : Unit} (h : forEach as body s = (.ok u, s'))
    (hstep : ∀ a ∈ as, ∀ t t', R s t → body a t = (.ok (), t') → R t t') :
    R s s' ∧ ∀ a ∈ as, ∃ t t', R s t ∧ body a t = (.ok (), t') ∧ R t' s' := by
  induction as generalizing s with
  | nil =>
      obtain ⟨-, rfl⟩ := pure_eq_ok.mp h
      exact ⟨hrefl s, by simp⟩
  | cons b rest ih =>
      simp only [forEach_cons, bind_eq_ok] at h
      obtain ⟨_, t, hb, hrest⟩ := h
      have ht := hstep b List.mem_cons_self s t (hrefl s) hb
      obtain ⟨hend, hturns⟩ := ih hrest fun a ha t₁ t₂ h₁ =>
        hstep a (List.mem_cons_of_mem _ ha) t₁ t₂ (htrans ht h₁)
      refine ⟨htrans ht hend, fun a ha => ?_⟩
      rcases List.mem_cons.mp ha with rfl | ha
      · exact ⟨s, t, hrefl s, hb, hend⟩
      · obtain ⟨t₁, t₂, h₁, hbody, h₂⟩ := hturns a ha
        exact ⟨t₁, t₂, htrans ht h₁, hbody, h₂⟩

theorem mapEach_turns (R : σ → σ → Prop) (hrefl : ∀ t, R t t)
    (htrans : ∀ {t t' t''}, R t t' → R t' t'' → R t t'') {as : List γ}
    {body : γ → Exec σ ε α} {bs : List α} (h : mapEach as body s = (.ok bs, s'))
    (hstep : ∀ a ∈ as, ∀ b t t', R s t → body a t = (.ok b, t') → R t t') :
    R s s' ∧ ∀ a ∈ as, ∃ b t t', R s t ∧ body a t = (.ok b, t') ∧ R t' s' := by
  induction as generalizing s bs with
  | nil =>
      obtain ⟨-, rfl⟩ := pure_eq_ok.mp h
      exact ⟨hrefl s, by simp⟩
  | cons c rest ih =>
      simp only [mapEach, bind_eq_ok, pure_eq_ok] at h
      obtain ⟨b, t, hb, bs', _, hrest, -, rfl⟩ := h
      have ht := hstep c List.mem_cons_self b s t (hrefl s) hb
      obtain ⟨hend, hturns⟩ := ih hrest fun a ha b' t₁ t₂ h₁ =>
        hstep a (List.mem_cons_of_mem _ ha) b' t₁ t₂ (htrans ht h₁)
      refine ⟨htrans ht hend, fun a ha => ?_⟩
      rcases List.mem_cons.mp ha with rfl | ha
      · exact ⟨b, s, t, hrefl s, hb, hend⟩
      · obtain ⟨b', t₁, t₂, h₁, hbody, h₂⟩ := hturns a ha
        exact ⟨b', t₁, t₂, htrans ht h₁, hbody, h₂⟩

@[simp] theorem mapEach_nil {body : γ → Exec σ ε α} : mapEach [] body = pure [] := rfl

@[simp] theorem mapEach_cons {a : γ} {as : List γ} {body : γ → Exec σ ε α} :
    mapEach (a :: as) body =
      body a >>= fun b => mapEach as body >>= fun bs => pure (b :: bs) := rfl

theorem mapEach_map {δ : Type} {f : δ → γ} {as : List δ} {body : γ → Exec σ ε α} :
    mapEach (as.map f) body = mapEach as fun a => body (f a) := by
  induction as with
  | nil => rfl
  | cons a as ih => rw [List.map_cons, mapEach_cons, mapEach_cons, ih]

-- A loop whose turns do not get in each other's way: each of them finds what it needs as it was
-- before the loop, and what it does stays. `R a` is what the turn of `a` may change.
theorem mapEach_each (f : γ → α) (R : γ → σ → σ → Prop) (Inv : σ → Prop) (Pre Post : γ → σ → Prop)
    {as : List γ} {body : γ → Exec σ ε α}
    (hbody : ∀ a ∈ as, ∀ t, Inv t → Pre a t →
      ∃ t', body a t = (.ok (f a), t') ∧ Inv t' ∧ Post a t' ∧ R a t t')
    (hpre : as.Pairwise fun a b => ∀ t t', R a t t' → Pre b t → Pre b t')
    (hpost : as.Pairwise fun a b => ∀ t t', R b t t' → Post a t → Post a t')
    (hinv : Inv s) (hstart : ∀ a ∈ as, Pre a s) :
    ∃ s', mapEach as body s = (.ok (as.map f), s') ∧ Inv s' ∧ (∀ a ∈ as, Post a s') ∧
      ∀ P : σ → Prop, (∀ a ∈ as, ∀ t t', R a t t' → P t → P t') → P s → P s' := by
  induction as generalizing s with
  | nil => exact ⟨s, rfl, hinv, by simp, fun _ _ h => h⟩
  | cons a as ih =>
      rw [List.pairwise_cons] at hpre hpost
      obtain ⟨t, hrun, hinv', hdone, hstep⟩ := hbody a List.mem_cons_self s hinv
        (hstart a List.mem_cons_self)
      obtain ⟨s', hrest, hend, hall, hkept⟩ := ih
        (fun b hb => hbody b (List.mem_cons_of_mem _ hb)) hpre.2 hpost.2 hinv'
        fun b hb => hpre.1 b hb s t hstep (hstart b (List.mem_cons_of_mem _ hb))
      refine ⟨s', ?_, hend, fun b hb => ?_, fun P hP hs => ?_⟩
      · rw [mapEach_cons, bind_of_ok hrun, bind_of_ok hrest]
        rfl
      · rcases List.mem_cons.mp hb with rfl | hb
        · exact hkept (Post b) (fun c hc t t' => hpost.1 c hc t t') hdone
        · exact hall b hb
      · exact hkept P (fun b hb => hP b (List.mem_cons_of_mem _ hb))
          (hP a List.mem_cons_self s t hstep hs)

theorem forEach_of_mapEach {as : List γ} {body : γ → Exec σ ε Unit} {bs : List Unit}
    (h : mapEach as body s = (.ok bs, s')) : forEach as body s = (.ok (), s') := by
  induction as generalizing s bs with
  | nil =>
      obtain ⟨-, rfl⟩ := pure_eq_ok.mp h
      rfl
  | cons a as ih =>
      simp only [mapEach_cons, bind_eq_ok, pure_eq_ok] at h
      obtain ⟨u, t, ha, bs', t', hrest, -, rfl⟩ := h
      rw [forEach_cons, bind_of_ok ha]
      exact ih hrest

-- A loop whose body returns a function of its element returns the images.
theorem mapEach_ok_map {as : List γ} {body : γ → Exec σ ε α} {bs : List α} {f : γ → α}
    (hbody : ∀ a t b t', body a t = (.ok b, t') → b = f a)
    (h : mapEach as body s = (.ok bs, s')) : bs = as.map f := by
  induction as generalizing s bs with
  | nil =>
      obtain ⟨rfl, -⟩ := pure_eq_ok.mp h
      rfl
  | cons a as ih =>
      simp only [mapEach_cons, bind_eq_ok, pure_eq_ok] at h
      obtain ⟨b, t, hb, bs', _, hrest, rfl, rfl⟩ := h
      rw [hbody a s b t hb, ih hrest, List.map_cons]

theorem mapEach_append_ok {as as' : List γ} {body : γ → Exec σ ε α} {bs : List α}
    (h : mapEach (as ++ as') body s = (.ok bs, s')) :
    ∃ bs₁ bs₂ t, mapEach as body s = (.ok bs₁, t) ∧ mapEach as' body t = (.ok bs₂, s') ∧
      bs = bs₁ ++ bs₂ := by
  induction as generalizing s bs with
  | nil => exact ⟨[], bs, s, rfl, h, rfl⟩
  | cons a as ih =>
      simp only [List.cons_append, mapEach_cons, bind_eq_ok, pure_eq_ok] at h
      obtain ⟨b, t, hb, bs', _, hrest, rfl, rfl⟩ := h
      obtain ⟨bs₁, bs₂, t', h₁, h₂, rfl⟩ := ih hrest
      refine ⟨b :: bs₁, bs₂, t', ?_, h₂, rfl⟩
      rw [mapEach_cons, bind_of_ok hb, bind_of_ok h₁]
      rfl

theorem bind_assoc {δ : Type} (x : Exec σ ε α) (f : α → Exec σ ε γ) (g : γ → Exec σ ε δ) :
    (x >>= f) >>= g = x >>= fun a => f a >>= g := by
  funext s
  rcases hx : x s with ⟨e | a, t⟩
  · rw [bind_of_error hx, bind_of_error (bind_of_error hx)]
  · rw [bind_of_ok hx]
    rcases hf : f a t with ⟨e | b, t'⟩
    · rw [bind_of_error hf, bind_of_error ((bind_of_ok hx).trans hf)]
    · rw [bind_of_ok hf, bind_of_ok ((bind_of_ok hx).trans hf)]

end Returns

-- What a run keeps however it ends: `R` relates the state before it to the state after it.
section Keeps

def Keeps (R : σ → σ → Prop) (x : Exec σ ε α) : Prop := ∀ s, R s (x s).2

variable {R : σ → σ → Prop}

theorem Keeps.ok {x : Exec σ ε α} (h : Keeps R x) {s s' : σ} {a : α}
    (hx : x s = (.ok a, s')) : R s s' := by
  simpa only [hx] using h s

theorem Keeps.error {x : Exec σ ε α} (h : Keeps R x) {s s' : σ} {e : ε}
    (hx : x s = (.error e, s')) : R s s' := by
  simpa only [hx] using h s

theorem Keeps.mono {x : Exec σ ε α} {R' : σ → σ → Prop} (h : Keeps R x)
    (hR : ∀ s s', R s s' → R' s s') : Keeps R' x := fun s => hR _ _ (h s)

section Reflexive

variable (hrefl : ∀ s, R s s)
include hrefl

theorem keeps_pure (a : α) : Keeps R (pure a : Exec σ ε α) := fun s => hrefl s

theorem keeps_raise (e : ε) : Keeps R (raise e : Exec σ ε α) := fun s => hrefl s

theorem keeps_ofExcept (x : Except ε α) : Keeps R (ofExcept x : Exec σ ε α) := by
  cases x with
  | ok a => exact keeps_pure hrefl a
  | error e => exact keeps_raise hrefl e

theorem keeps_raiseIf (c : Bool) (e : ε) : Keeps R (raiseIf c e : Exec σ ε Unit) := by
  cases c with
  | false => exact keeps_pure hrefl ()
  | true => exact keeps_raise hrefl e

theorem keeps_runIf {c : Bool} {x : Exec σ ε Unit} (hx : Keeps R x) : Keeps R (runIf c x) := by
  cases c with
  | false => exact keeps_pure hrefl ()
  | true => exact hx

end Reflexive

section Transitive

variable (htrans : ∀ s s' s'', R s s' → R s' s'' → R s s'')
include htrans

theorem keeps_bind {x : Exec σ ε α} {f : α → Exec σ ε γ} (hx : Keeps R x)
    (hf : ∀ a, Keeps R (f a)) : Keeps R (x >>= f) := by
  intro s
  rcases h : x s with ⟨e | a, t⟩
  · rw [bind_of_error h]
    exact hx.error h
  · rw [bind_of_ok h]
    exact htrans _ _ _ (hx.ok h) (hf a t)

theorem keeps_tryExcept {x : Exec σ ε α} {handler : ε → Exec σ ε α} (hx : Keeps R x)
    (hhandler : ∀ e, Keeps R (handler e)) : Keeps R (tryExcept x handler) := by
  intro s
  rcases h : x s with ⟨e | a, t⟩
  · simp only [tryExcept, h]
    exact htrans _ _ _ (hx.error h) (hhandler e t)
  · simp only [tryExcept, h]
    exact hx.ok h

theorem keeps_mapEach (hrefl : ∀ s, R s s) {as : List γ} {body : γ → Exec σ ε α}
    (hbody : ∀ a ∈ as, Keeps R (body a)) : Keeps R (mapEach as body) := by
  induction as with
  | nil => exact keeps_pure hrefl []
  | cons a as ih =>
      rw [mapEach_cons]
      have hrest := ih fun b hb => hbody b (List.mem_cons_of_mem _ hb)
      exact keeps_bind htrans (hbody a List.mem_cons_self) fun b =>
        keeps_bind htrans hrest fun bs => keeps_pure hrefl (b :: bs)

end Transitive

-- Each step of the loop may take a place of its own, as long as it finds it free.
theorem mapEach_takes {π : Type*} {Inv : σ → Prop} (Free : σ → π → Prop) {R : σ → σ → Prop}
    (hrefl : ∀ s, R s s) (htrans : ∀ s s' s'', R s s' → R s' s'' → R s s'') (target : γ → π)
    {body : γ → Exec σ ε α}
    (hbody : ∀ a s, Inv s → Free s (target a) → Inv (body a s).2 ∧ R s (body a s).2 ∧
      ∀ p, p ≠ target a → (Free (body a s).2 p ↔ Free s p)) (as : List γ) :
    (as.map target).Nodup → ∀ s, Inv s → (∀ a ∈ as, Free s (target a)) →
      Inv (mapEach as body s).2 ∧ R s (mapEach as body s).2 ∧
        ∀ p, (∀ a ∈ as, p ≠ target a) → (Free (mapEach as body s).2 p ↔ Free s p) := by
  induction as with
  | nil => exact fun _ s hs _ => ⟨hs, hrefl s, fun _ _ => Iff.rfl⟩
  | cons a as ih =>
      intro hnodup s hs hfree
      rw [List.map_cons, List.nodup_cons] at hnodup
      obtain ⟨hinv, hrel, hframe⟩ := hbody a s hs (hfree a List.mem_cons_self)
      rw [mapEach_cons]
      rcases hfirst : body a s with ⟨e | b, t⟩
      · rw [bind_of_error hfirst]
        rw [hfirst] at hinv hrel hframe
        exact ⟨hinv, hrel, fun p hp => hframe p (hp a List.mem_cons_self)⟩
      · rw [bind_of_ok hfirst]
        rw [hfirst] at hinv hrel hframe
        have hapart : ∀ c ∈ as, target c ≠ target a := fun c hc hsame =>
          hnodup.1 (hsame ▸ List.mem_map_of_mem hc)
        obtain ⟨hinv', hrel', hframe'⟩ := ih hnodup.2 t hinv fun c hc =>
          (hframe _ (hapart c hc)).mpr (hfree c (List.mem_cons_of_mem _ hc))
        have hrest : ((mapEach as body >>= fun bs => pure (b :: bs)) t).2 = (mapEach as body t).2 := by
          rcases hx : mapEach as body t with ⟨e | bs, t'⟩
          · rw [bind_of_error hx]
          · rw [bind_of_ok hx]
            rfl
        rw [hrest]
        exact ⟨hinv', htrans _ _ _ hrel hrel', fun p hp =>
          (hframe' p fun c hc => hp c (List.mem_cons_of_mem _ hc)).trans
            (hframe p (hp a List.mem_cons_self))⟩

end Keeps

-- Every exception that `x` can raise is one of `E`.
def Raises (E : ε → Prop) (x : Exec σ ε α) : Prop := ∀ s e s', x s = (.error e, s') → E e

namespace Raises

variable {E : ε → Prop}

theorem of_ok {x : Exec σ ε α} (h : ∀ s, ∃ a s', x s = (.ok a, s')) : Raises E x := by
  intro s e s' hx
  obtain ⟨a, t, ha⟩ := h s
  cases hx.symm.trans ha

theorem pure (a : α) : Raises E (Pure.pure a : Exec σ ε α) := of_ok fun s => ⟨a, s, rfl⟩

theorem raise {e : ε} (he : E e) : Raises E (Exec.raise e : Exec σ ε α) := by
  intro s e' s' h
  obtain ⟨h, -⟩ := Prod.mk.inj h
  exact Except.error.inj h ▸ he

theorem raiseIf {c : Bool} {e : ε} (he : c = true → E e) :
    Raises E (Exec.raiseIf c e : Exec σ ε Unit) := by
  cases c with
  | false => exact pure ()
  | true => exact raise (he rfl)

theorem bind {x : Exec σ ε γ} {f : γ → Exec σ ε α} (hx : Raises E x)
    (hf : ∀ a, Raises E (f a)) : Raises E (x >>= f) := by
  intro s e s' h
  rcases bind_eq_error h with h | ⟨a, t, -, h⟩
  · exact hx s e s' h
  · exact hf a t e s' h

theorem read_bind {f : σ → Exec σ ε α} (h : ∀ s, Raises E (f s)) : Raises E (read >>= f) :=
  fun s => h s s

theorem mono {E' : ε → Prop} {x : Exec σ ε α} (h : Raises E x) (hE : ∀ e, E e → E' e) : Raises E' x :=
  fun s e s' hx => hE e (h s e s' hx)

-- What is raised in the end is raised where the first exception is handled.
theorem tryExcept {D : ε → Prop} {x : Exec σ ε α} {handler : ε → Exec σ ε α} (hx : Raises D x)
    (hhandler : ∀ e, D e → Raises E (handler e)) : Raises E (Exec.tryExcept x handler) := by
  intro s e s' h
  rcases hrun : x s with ⟨e₀ | a, t⟩
  · rw [tryExcept_of_error hrun] at h
    exact hhandler e₀ (hx s e₀ t hrun) t e s' h
  · rw [tryExcept_of_ok hrun] at h
    cases (Prod.mk.inj h).1

-- An exception that `x` cannot raise comes from what follows it.
theorem past {x : Exec σ ε γ} {f : γ → Exec σ ε α} {s s' : σ} {e : ε} (hx : Raises E x) (he : ¬E e)
    (h : (x >>= f) s = (.error e, s')) : ∃ a t, x s = (.ok a, t) ∧ f a t = (.error e, s') := by
  rcases bind_eq_error h with h | ⟨a, t, ha, h⟩
  · exact absurd (hx s e s' h) he
  · exact ⟨a, t, ha, h⟩

end Raises

end Exec

end VMForge
