import Mathlib

/-!
# Computations that can fail

A function that can return an error or panic is a function into `Except ε`. The lemmas here
take a successful run apart: a bind that returned `ok` ran both halves with `ok`, and a
monadic fold over a list that returned `ok` kept every invariant that each step keeps. A
caller peels a computation with `obtain` and never unfolds `bind`.
-/

namespace Fallible

variable {ε α β σ : Type}

@[simp] theorem bind_eq_ok {x : Except ε α} {f : α → Except ε β} {b : β} :
    x >>= f = .ok b ↔ ∃ a, x = .ok a ∧ f a = .ok b := by
  cases x with
  | error e => simp [bind, Except.bind]
  | ok a => simp [bind, Except.bind]

@[simp] theorem map_eq_ok {x : Except ε α} {f : α → β} {b : β} :
    f <$> x = .ok b ↔ ∃ a, x = .ok a ∧ f a = b := by
  cases x with
  | error e => simp [Functor.map, Except.map]
  | ok a => simp [Functor.map, Except.map]

@[simp] theorem map_eq_error {x : Except ε α} {f : α → β} {e : ε} :
    f <$> x = .error e ↔ x = .error e := by
  cases x with
  | error e' => simp [Functor.map, Except.map]
  | ok a => simp [Functor.map, Except.map]

@[simp] theorem toOption_eq_some {x : Except ε α} {a : α} : x.toOption = some a ↔ x = .ok a := by
  cases x with
  | error e => simp [Except.toOption]
  | ok a' => simp [Except.toOption]

@[simp] theorem pure_eq_ok {a b : α} : (pure a : Except ε α) = .ok b ↔ a = b := by
  simp [pure, Except.pure]

@[simp] theorem mapError_eq_ok {ε' : Type} {x : Except ε α} {f : ε → ε'} {b : α} :
    x.mapError f = .ok b ↔ x = .ok b := by
  cases x with
  | error e => simp [Except.mapError]
  | ok a => simp [Except.mapError]

@[simp] theorem throw_ne_ok {e : ε} {b : α} : (throw e : Except ε α) ≠ .ok b := by
  simp [throw, throwThe, MonadExceptOf.throw]

/-- A bind whose first half succeeds succeeds when its second half does on that value. -/
theorem exists_bind_ok {x : Except ε α} {f : α → Except ε β} {a : α} (first : x = .ok a)
    (second : ∃ b, f a = .ok b) : ∃ b, x >>= f = .ok b := by
  obtain ⟨b, hb⟩ := second
  exact ⟨b, bind_eq_ok.mpr ⟨a, first, hb⟩⟩

/-- A bind that failed failed in its first half, or ran its second half and failed there. -/
theorem bind_eq_error {x : Except ε α} {f : α → Except ε β} {e : ε} :
    x >>= f = .error e ↔ x = .error e ∨ ∃ a, x = .ok a ∧ f a = .error e := by
  cases x with
  | error e' => simp [bind, Except.bind]
  | ok a => simp [bind, Except.bind]

/-- An invariant that every successful step keeps holds after a successful fold. -/
theorem foldlM_ok_induction (f : σ → α → Except ε σ) (P : σ → Prop)
    (step : ∀ s a s', P s → f s a = .ok s' → P s') :
    ∀ (l : List α) (s s' : σ), P s → l.foldlM f s = .ok s' → P s'
  | [], s, s', hs, h => by
    simp only [List.foldlM_nil, pure_eq_ok] at h
    exact h ▸ hs
  | a :: l, s, s', hs, h => by
    simp only [List.foldlM_cons, bind_eq_ok] at h
    obtain ⟨s₁, h₁, hrest⟩ := h
    exact foldlM_ok_induction f P step l s₁ s' (step s a s₁ hs h₁) hrest

/-- The same, for an invariant that the steps keep only for the elements of the list. -/
theorem foldlM_ok_induction_mem (f : σ → α → Except ε σ) (P : σ → Prop) :
    ∀ (l : List α), (∀ s a s', a ∈ l → P s → f s a = .ok s' → P s') →
      ∀ (s s' : σ), P s → l.foldlM f s = .ok s' → P s'
  | [], _, s, s', hs, h => by
    simp only [List.foldlM_nil, pure_eq_ok] at h
    exact h ▸ hs
  | a :: l, step, s, s', hs, h => by
    simp only [List.foldlM_cons, bind_eq_ok] at h
    obtain ⟨s₁, h₁, hrest⟩ := h
    exact foldlM_ok_induction_mem f P l (fun s b s' hb => step s b s' (List.mem_cons_of_mem a hb))
      s₁ s' (step s a s₁ List.mem_cons_self hs h₁) hrest

/-- A quantity that every successful step moves by the weight of its element moves, over a
successful fold, by the total weight of the list. -/
theorem foldlM_ok_sum [AddCommMonoid β] (f : σ → α → Except ε σ) (val : σ → β) (w : α → β)
    (step : ∀ s a s', f s a = .ok s' → val s' = val s + w a) :
    ∀ (l : List α) (s s' : σ), l.foldlM f s = .ok s' → val s' = val s + (l.map w).sum
  | [], s, s', h => by
    simp only [List.foldlM_nil, pure_eq_ok] at h
    simp [h]
  | a :: l, s, s', h => by
    simp only [List.foldlM_cons, bind_eq_ok] at h
    obtain ⟨s₁, h₁, hrest⟩ := h
    rw [foldlM_ok_sum f val w step l s₁ s' hrest, step s a s₁ h₁, List.map_cons, List.sum_cons,
      add_assoc]

/-- Every element of a fold that succeeded was stepped over, with success, from some state. -/
theorem foldlM_ok_step (f : σ → α → Except ε σ) :
    ∀ (l : List α) (s s' : σ), l.foldlM f s = .ok s' → ∀ a ∈ l, ∃ s₀ s₁, f s₀ a = .ok s₁
  | [], _, _, _, _, member => absurd member List.not_mem_nil
  | a :: l, s, s', h, b, member => by
    rw [List.foldlM_cons] at h
    obtain ⟨s₁, h₁, hrest⟩ := bind_eq_ok.mp h
    rcases List.mem_cons.mp member with rfl | later
    · exact ⟨s, s₁, h₁⟩
    · exact foldlM_ok_step f l s₁ s' hrest b later

/-- A fold succeeds when every step from a state with the invariant succeeds into one with it. -/
theorem foldlM_exists_ok (f : σ → α → Except ε σ) (P : σ → Prop) :
    ∀ (l : List α), (∀ s a, a ∈ l → P s → ∃ s', f s a = .ok s' ∧ P s') →
      ∀ s, P s → ∃ s', l.foldlM f s = .ok s'
  | [], _, s, _ => ⟨s, rfl⟩
  | a :: l, step, s, hs => by
    obtain ⟨s₁, h₁, hs₁⟩ := step s a List.mem_cons_self hs
    obtain ⟨s', hrest⟩ := foldlM_exists_ok f P l
      (fun s b hb => step s b (List.mem_cons_of_mem a hb)) s₁ hs₁
    refine ⟨s', ?_⟩
    rw [List.foldlM_cons, h₁]
    exact hrest

/-- A fold whose every step succeeds exactly on the elements of a predicate, whatever the state,
succeeds exactly on lists of such elements. -/
theorem foldlM_exists_ok_iff (f : σ → α → Except ε σ) (p : α → Prop)
    (step : ∀ s a, (∃ s', f s a = .ok s') ↔ p a) :
    ∀ (l : List α) (s : σ), (∃ s', l.foldlM f s = .ok s') ↔ ∀ a ∈ l, p a
  | [], s => by simp
  | a :: l, s => by
    constructor
    · rintro ⟨s', h⟩
      rw [List.foldlM_cons] at h
      obtain ⟨s₁, h₁, hrest⟩ := bind_eq_ok.mp h
      intro b hb
      rcases List.mem_cons.mp hb with rfl | hb
      · exact (step s b).mp ⟨s₁, h₁⟩
      · exact (foldlM_exists_ok_iff f p step l s₁).mp ⟨s', hrest⟩ b hb
    · intro hall
      exact foldlM_exists_ok f (fun _ => True) (a :: l)
        (fun s b hb _ => ((step s b).mpr (hall b hb)).imp fun _ h => ⟨h, trivial⟩) s trivial

/-- A fold that failed failed at the step of one of its elements. -/
theorem foldlM_eq_error (f : σ → α → Except ε σ) :
    ∀ (l : List α) (s : σ) {e : ε}, l.foldlM f s = .error e → ∃ a ∈ l, ∃ s₀, f s₀ a = .error e
  | [], s, e, h => by simp [pure, Except.pure] at h
  | a :: l, s, e, h => by
    rw [List.foldlM_cons] at h
    rcases bind_eq_error.mp h with failed | ⟨s₁, _, hrest⟩
    · exact ⟨a, List.mem_cons_self, s, failed⟩
    · obtain ⟨b, hb, s₀, failed⟩ := foldlM_eq_error f l s₁ hrest
      exact ⟨b, List.mem_cons_of_mem a hb, s₀, failed⟩

/-- A successful `mapM` returns the images under any function that each successful call of
the step agrees with. -/
theorem mapM_eq_ok (f : α → Except ε β) (g : α → β) (agrees : ∀ a b, f a = .ok b → b = g a) :
    ∀ (l : List α) (r : List β), l.mapM f = .ok r → r = l.map g
  | [], r, h => by
    rw [List.mapM_nil, pure_eq_ok] at h
    rw [← h, List.map_nil]
  | a :: l, r, h => by
    rw [List.mapM_cons] at h
    obtain ⟨b, hb, h⟩ := bind_eq_ok.mp h
    obtain ⟨bs, hbs, h⟩ := bind_eq_ok.mp h
    rw [← pure_eq_ok.mp h, agrees a b hb, mapM_eq_ok f g agrees l bs hbs, List.map_cons]

/-- A `mapM` succeeds when every element's call succeeds. -/
theorem mapM_exists_ok (f : α → Except ε β) :
    ∀ (l : List α), (∀ a ∈ l, ∃ b, f a = .ok b) → ∃ r, l.mapM f = .ok r
  | [], _ => ⟨[], rfl⟩
  | a :: l, each => by
    obtain ⟨b, hb⟩ := each a List.mem_cons_self
    obtain ⟨bs, hbs⟩ := mapM_exists_ok f l fun a' ha' => each a' (List.mem_cons_of_mem a ha')
    refine ⟨b :: bs, ?_⟩
    rw [List.mapM_cons, hb]
    change (l.mapM f >>= fun bs => pure (b :: bs)) = .ok (b :: bs)
    rw [hbs]
    rfl

end Fallible
