import ClassLinker.Closure.Basic

/-! What it means that a step succeeds or fails, for the steps of the registry and of a link: a
sequence of steps succeeds when each of them does, from the state the one before it left, and it
fails in the first that fails, with the state that one left. -/

namespace ClassLinker

namespace Step

variable {ε σ α β : Type}

/-- Whether a step succeeds, and with a result and a state that pass a check. -/
def yields (step : EStateM.Result ε σ α) (check : α → σ → Bool) : Bool :=
  match step with
  | .ok a s => check a s
  | .error _ _ => false

theorem exists_of_yields {step : EStateM.Result ε σ α} {check : α → σ → Bool}
    (h : yields step check = true) : ∃ a s, step = .ok a s ∧ check a s = true := by
  cases step with
  | ok a s => exact ⟨a, s, rfl, h⟩
  | error e s => cases h

@[simp]
theorem bind_ok {x : EStateM ε σ α} {f : α → EStateM ε σ β} {s t : σ} {b : β} :
    (x >>= f) s = .ok b t ↔ ∃ a u, x s = .ok a u ∧ f a u = .ok b t := by
  show EStateM.bind x f s = .ok b t ↔ _
  unfold EStateM.bind
  cases x s with
  | ok a u => simp [and_assoc]
  | error e u => simp

@[simp]
theorem bind_error {x : EStateM ε σ α} {f : α → EStateM ε σ β} {s t : σ} {e : ε} :
    (x >>= f) s = .error e t ↔
      x s = .error e t ∨ ∃ a u, x s = .ok a u ∧ f a u = .error e t := by
  show EStateM.bind x f s = .error e t ↔ _
  unfold EStateM.bind
  cases x s with
  | ok a u => simp [and_assoc]
  | error e u => simp

theorem bind_of_ok {x : EStateM ε σ α} {f : α → EStateM ε σ β} {s t : σ} {a : α}
    (h : x s = .ok a t) : (x >>= f) s = f a t := by
  show EStateM.bind x f s = f a t
  unfold EStateM.bind
  rw [h]

/-- A sequence only depends on what its first step does. -/
theorem bind_of_same {x y : EStateM ε σ α} {f : α → EStateM ε σ β} {s : σ} (h : y s = x s) :
    (y >>= f) s = (x >>= f) s := by
  show EStateM.bind y f s = EStateM.bind x f s
  unfold EStateM.bind
  rw [h]

theorem bind_of_error {x : EStateM ε σ α} {f : α → EStateM ε σ β} {s t : σ} {e : ε}
    (h : x s = .error e t) : (x >>= f) s = .error e t := by
  show EStateM.bind x f s = .error e t
  unfold EStateM.bind
  rw [h]

@[simp]
theorem pure_ok {s t : σ} {a b : α} :
    (pure a : EStateM ε σ α) s = .ok b t ↔ a = b ∧ s = t := by
  show EStateM.Result.ok a s = .ok b t ↔ _
  simp

@[simp]
theorem pure_error {s t : σ} {a : α} {e : ε} :
    (pure a : EStateM ε σ α) s = .error e t ↔ False := by
  show EStateM.Result.ok a s = .error e t ↔ _
  simp

@[simp]
theorem get_ok {s t a : σ} : (get : EStateM ε σ σ) s = .ok a t ↔ s = a ∧ s = t := by
  show EStateM.Result.ok s s = .ok a t ↔ _
  simp

@[simp]
theorem get_error {s t : σ} {e : ε} : (get : EStateM ε σ σ) s = .error e t ↔ False := by
  show EStateM.Result.ok s s = .error e t ↔ _
  simp

@[simp]
theorem set_ok {s t u : σ} {a : PUnit} : (set u : EStateM ε σ PUnit) s = .ok a t ↔ u = t := by
  show EStateM.Result.ok PUnit.unit u = .ok a t ↔ _
  simp

@[simp]
theorem set_error {s t u : σ} {e : ε} : (set u : EStateM ε σ PUnit) s = .error e t ↔ False := by
  show EStateM.Result.ok PUnit.unit u = .error e t ↔ _
  simp

@[simp]
theorem modify_ok {f : σ → σ} {s t : σ} {a : PUnit} :
    (modify f : EStateM ε σ PUnit) s = .ok a t ↔ f s = t := by
  show EStateM.Result.ok PUnit.unit (f s) = .ok a t ↔ _
  simp

@[simp]
theorem modify_error {f : σ → σ} {s t : σ} {e : ε} :
    (modify f : EStateM ε σ PUnit) s = .error e t ↔ False := by
  show EStateM.Result.ok PUnit.unit (f s) = .error e t ↔ _
  simp

@[simp]
theorem throw_ok {e : ε} {s t : σ} {a : α} : (throw e : EStateM ε σ α) s = .ok a t ↔ False := by
  show EStateM.Result.error e s = .ok a t ↔ _
  simp

@[simp]
theorem throw_error {e e' : ε} {s t : σ} :
    (throw e : EStateM ε σ α) s = .error e' t ↔ e = e' ∧ s = t := by
  show EStateM.Result.error e s = .error e' t ↔ _
  simp

@[simp]
theorem map_ok {f : α → β} {x : EStateM ε σ α} {s t : σ} {b : β} :
    (f <$> x) s = .ok b t ↔ ∃ a, x s = .ok a t ∧ f a = b := by
  show EStateM.map f x s = .ok b t ↔ _
  unfold EStateM.map
  cases x s with
  | ok a u => simp [and_assoc, and_comm]
  | error e u => simp

@[simp]
theorem map_error {f : α → β} {x : EStateM ε σ α} {s t : σ} {e : ε} :
    (f <$> x) s = .error e t ↔ x s = .error e t := by
  show EStateM.map f x s = .error e t ↔ _
  unfold EStateM.map
  cases x s with
  | ok a u => simp
  | error e u => simp

@[simp]
theorem discard_ok {x : EStateM ε σ α} {s t : σ} {b : PUnit} :
    (discard x) s = .ok b t ↔ ∃ a, x s = .ok a t := by
  show (Function.const _ PUnit.unit <$> x) s = .ok b t ↔ _
  simp

theorem discard_error {x : EStateM ε σ α} {s t : σ} {e : ε} :
    (discard x) s = .error e t ↔ x s = .error e t := map_error

/-- What a step answers does not change what it does. -/
theorem map_of_same {f : α → β} {x y : EStateM ε σ α} {s t : σ} (h : x s = y t) :
    (f <$> x) s = (f <$> y) t := by
  show EStateM.map f x s = EStateM.map f y t
  unfold EStateM.map
  rw [h]

theorem discard_of_same {f : β → α} {x : EStateM ε σ α} {y : EStateM ε σ β} {s : σ}
    (h : x s = (f <$> y) s) : discard x s = discard y s := by
  refine (map_of_same h).trans ?_
  rw [← comp_map]
  rfl

theorem discard_unit {x : EStateM ε σ PUnit} {s : σ} : discard x s = x s := by
  show EStateM.map _ x s = x s
  unfold EStateM.map
  cases x s <;> rfl

/-- A sequence does the same when its second step does the same wherever the first one leads. -/
theorem bind_of_same_steps {x y : EStateM ε σ α} {f g : α → EStateM ε σ β} {s : σ} (h : y s = x s)
    (hf : ∀ a t, x s = .ok a t → g a t = f a t) : (y >>= g) s = (x >>= f) s := by
  refine (bind_of_same h).trans ?_
  cases hrun : x s with
  | error e t => rw [bind_of_error hrun, bind_of_error hrun]
  | ok a t => rw [bind_of_ok hrun, bind_of_ok hrun, hf a t hrun]

/-- A guarded step succeeds in the branch that its guard chooses. -/
@[simp]
theorem ite_ok {p : Prop} [Decidable p] {x y : EStateM ε σ α} {s t : σ} {a : α} :
    (if p then x else y) s = .ok a t ↔ (p ∧ x s = .ok a t) ∨ (¬p ∧ y s = .ok a t) := by
  by_cases h : p <;> simp [h]

@[simp]
theorem ite_error {p : Prop} [Decidable p] {x y : EStateM ε σ α} {s t : σ} {e : ε} :
    (if p then x else y) s = .error e t ↔ (p ∧ x s = .error e t) ∨ (¬p ∧ y s = .error e t) := by
  by_cases h : p <;> simp [h]

@[simp]
theorem forM_nil_ok {f : α → EStateM ε σ PUnit} {s t : σ} {b : PUnit} :
    ([] : List α).forM f s = .ok b t ↔ s = t := by
  show (pure PUnit.unit : EStateM ε σ PUnit) s = .ok b t ↔ _
  simp

@[simp]
theorem forM_cons_ok {f : α → EStateM ε σ PUnit} {x : α} {xs : List α} {s t : σ} {b : PUnit} :
    (x :: xs).forM f s = .ok b t ↔ ∃ u, f x s = .ok .unit u ∧ xs.forM f u = .ok .unit t := by
  show (f x >>= fun _ => xs.forM f) s = .ok b t ↔ _
  rw [bind_ok]
  exact ⟨fun ⟨_, u, h⟩ => ⟨u, h⟩, fun ⟨u, h⟩ => ⟨_, u, h⟩⟩

theorem forM_append_ok {f : α → EStateM ε σ PUnit} {xs ys : List α} {s t : σ} {b : PUnit} :
    (xs ++ ys).forM f s = .ok b t ↔ ∃ u, xs.forM f s = .ok .unit u ∧ ys.forM f u = .ok .unit t := by
  induction xs generalizing s with
  | nil => simp
  | cons x xs ih =>
      simp only [List.cons_append, forM_cons_ok, ih]
      constructor
      · rintro ⟨u, hx, v, hxs, hys⟩
        exact ⟨v, ⟨u, hx, hxs⟩, hys⟩
      · rintro ⟨v, ⟨u, hx, hxs⟩, hys⟩
        exact ⟨u, hx, v, hxs, hys⟩

/-- What every step of a list of steps preserves, the whole list preserves. -/
theorem forM_preserves {f : α → EStateM ε σ PUnit} {P : σ → Prop} {xs : List α} {s t : σ}
    (hstep : ∀ x ∈ xs, ∀ s t, P s → f x s = .ok .unit t → P t) (hs : P s)
    (h : xs.forM f s = .ok .unit t) : P t := by
  induction xs generalizing s with
  | nil =>
      rw [forM_nil_ok] at h
      exact h ▸ hs
  | cons x xs ih =>
      rw [forM_cons_ok] at h
      obtain ⟨u, hx, hrest⟩ := h
      have hu : P u := hstep x List.mem_cons_self s u hs hx
      exact ih (fun y hy => hstep y (List.mem_cons_of_mem x hy)) hu hrest

/-- A list of steps fails in one of them, after those before it succeeded. -/
theorem forM_error {f : α → EStateM ε σ PUnit} {xs : List α} {s t : σ} {e : ε}
    (h : xs.forM f s = .error e t) :
    ∃ done x rest u, xs = done ++ x :: rest ∧ done.forM f s = .ok .unit u ∧ f x u = .error e t := by
  induction xs generalizing s with
  | nil => cases h
  | cons x xs ih =>
      rcases bind_error.mp h with hx | ⟨_, u, hx, hrest⟩
      · exact ⟨[], x, xs, s, rfl, rfl, hx⟩
      · obtain ⟨done, y, rest, v, rfl, hdone, hy⟩ := ih hrest
        exact ⟨x :: done, y, rest, v, rfl, forM_cons_ok.mpr ⟨u, hx, hdone⟩, hy⟩

/-- What each step extends by its own input, the whole list extends by all of it. The steps may
depend on where in the list they stand. -/
theorem forM_prefixes {f : α → EStateM ε σ PUnit} {P : List α → σ → Prop} {xs : List α} {s t : σ}
    (hstep : ∀ {done x rest s t}, xs = done ++ x :: rest → P done s → f x s = .ok .unit t →
      P (done ++ [x]) t) (hs : P [] s) (h : xs.forM f s = .ok .unit t) : P xs t := by
  suffices hrun : ∀ rest done u, xs = done ++ rest → P done u → rest.forM f u = .ok .unit t →
      P xs t from hrun xs [] s rfl hs h
  intro rest
  induction rest with
  | nil =>
      intro done u hxs hu hok
      rw [forM_nil_ok] at hok
      rw [hxs, List.append_nil]
      exact hok ▸ hu
  | cons x rest ih =>
      intro done u hxs hu hok
      rw [forM_cons_ok] at hok
      obtain ⟨v, hx, hrest⟩ := hok
      exact ih (done ++ [x]) v (by rw [hxs, List.append_cons]) (hstep hxs hu hx) hrest

theorem forM_accumulates {f : α → EStateM ε σ PUnit} {P : List α → σ → Prop} {xs : List α}
    {s t : σ} (hstep : ∀ done x s t, P done s → f x s = .ok .unit t → P (done ++ [x]) t)
    (hs : P [] s) (h : xs.forM f s = .ok .unit t) : P xs t :=
  forM_prefixes (fun _ hdone hx => hstep _ _ _ _ hdone hx) hs h

/-- A list of steps that all relate their states: what each of them establishes for its own input
and the later ones keep, holds for the whole list in the end. -/
theorem forM_collects {f : α → EStateM ε σ PUnit} {R : σ → σ → Prop} {Q : α → σ → Prop}
    {xs : List α} {s t : σ} (hrefl : R s s)
    (htrans : ∀ {u v w}, R u v → R v w → R u w)
    (hkeep : ∀ {x u v}, x ∈ xs → R s u → R u v → Q x u → Q x v)
    (hstep : ∀ {x u v}, x ∈ xs → R s u → f x u = .ok .unit v → R u v ∧ Q x v)
    (h : xs.forM f s = .ok .unit t) : R s t ∧ ∀ x ∈ xs, Q x t := by
  suffices hrun : ∀ ys ⊆ xs, ∀ u, R s u → ys.forM f u = .ok .unit t → (R s t ∧ (R u t ∨ u = t)) ∧
      ∀ y ∈ ys, Q y t by
    obtain ⟨⟨hst, -⟩, hall⟩ := hrun xs (List.Subset.refl xs) s hrefl h
    exact ⟨hst, hall⟩
  intro ys
  induction ys with
  | nil =>
      intro _ u hu hok
      rw [forM_nil_ok] at hok
      exact ⟨⟨hok ▸ hu, Or.inr hok⟩, fun y hy => by cases hy⟩
  | cons y ys ih =>
      intro hsub u hu hok
      rw [forM_cons_ok] at hok
      obtain ⟨v, hy, hrest⟩ := hok
      have hmem : y ∈ xs := hsub List.mem_cons_self
      obtain ⟨huv, hQ⟩ := hstep hmem hu hy
      have hsv := htrans hu huv
      obtain ⟨⟨hst, hvt⟩, hall⟩ := ih (fun z hz => hsub (List.mem_cons_of_mem y hz)) v hsv hrest
      refine ⟨⟨hst, ?_⟩, ?_⟩
      · rcases hvt with hvt | rfl
        · exact Or.inl (htrans huv hvt)
        · exact Or.inl huv
      · intro z hz
        rcases List.mem_cons.mp hz with rfl | hz
        · rcases hvt with hvt | rfl
          · exact hkeep hmem hsv hvt hQ
          · exact hQ
        · exact hall z hz

/-- What every step of a fold preserves, the whole fold preserves. -/
theorem foldlM_preserves {f : β → α → EStateM ε σ β} {P : σ → Prop} {xs : List α} {b b' : β}
    {s t : σ} (hstep : ∀ {x b b' s t}, x ∈ xs → P s → f b x s = .ok b' t → P t) (hs : P s)
    (h : xs.foldlM f b s = .ok b' t) : P t := by
  induction xs generalizing b s with
  | nil =>
      rw [List.foldlM_nil, pure_ok] at h
      exact h.2 ▸ hs
  | cons x xs ih =>
      rw [List.foldlM_cons, bind_ok] at h
      obtain ⟨b₁, u, hx, hrest⟩ := h
      exact ih (fun hx => hstep (List.mem_cons_of_mem _ hx)) (hstep List.mem_cons_self hs hx) hrest

/-- A fold of steps that count what they change: when nothing was counted, no step changed anything,
and what a step finds in that case holds for all of them. -/
theorem foldlM_idle {f : Nat → α → EStateM ε σ Nat} {Q : α → σ → Prop} {xs : List α} {n n' : Nat}
    {s t : σ} (hstep : ∀ {x n n' s t}, x ∈ xs → f n x s = .ok n' t →
      n ≤ n' ∧ (n' = n → t = s ∧ Q x s)) (h : xs.foldlM f n s = .ok n' t) :
    n ≤ n' ∧ (n' = n → t = s ∧ ∀ x ∈ xs, Q x s) := by
  induction xs generalizing n s with
  | nil =>
      rw [List.foldlM_nil, pure_ok] at h
      obtain ⟨rfl, rfl⟩ := h
      exact ⟨Nat.le_refl _, fun _ => ⟨rfl, by simp⟩⟩
  | cons x xs ih =>
      rw [List.foldlM_cons, bind_ok] at h
      obtain ⟨n₁, u, hx, hrest⟩ := h
      obtain ⟨hle, hidle⟩ := hstep List.mem_cons_self hx
      obtain ⟨hle', hidle'⟩ := ih (fun hx => hstep (List.mem_cons_of_mem _ hx)) hrest
      refine ⟨Nat.le_trans hle hle', fun heq => ?_⟩
      obtain ⟨rfl, hQ⟩ := hidle (by omega)
      obtain ⟨rfl, hQs⟩ := hidle' (by omega)
      exact ⟨rfl, List.forall_mem_cons.mpr ⟨hQ, hQs⟩⟩

/-- A list of steps succeeds when each of them does wherever the ones before it may have led. -/
theorem forM_succeeds {f : α → EStateM ε σ PUnit} {P : σ → Prop} {xs : List α} {s : σ}
    (hstep : ∀ x ∈ xs, ∀ u, P u → ∃ v, f x u = .ok .unit v ∧ P v) (hs : P s) :
    ∃ t, xs.forM f s = .ok .unit t ∧ P t := by
  induction xs generalizing s with
  | nil => exact ⟨s, rfl, hs⟩
  | cons x xs ih =>
      obtain ⟨u, hx, hu⟩ := hstep x List.mem_cons_self s hs
      obtain ⟨t, hxs, ht⟩ := ih (fun y hy => hstep y (List.mem_cons_of_mem x hy)) hu
      exact ⟨t, forM_cons_ok.mpr ⟨u, hx, hxs⟩, ht⟩

/-- As above, for steps that each establish something which the later ones keep. -/
theorem forM_establishes {f : α → EStateM ε σ PUnit} {P : σ → Prop} {Q : α → σ → Prop}
    {xs : List α} {s : σ} (hstep : ∀ x ∈ xs, ∀ u, P u → ∃ v, f x u = .ok .unit v ∧ P v ∧ Q x v ∧
      ∀ y, Q y u → Q y v) (hs : P s) : ∃ t, xs.forM f s = .ok .unit t ∧ P t ∧ ∀ x ∈ xs, Q x t := by
  induction xs generalizing P s with
  | nil => exact ⟨s, forM_nil_ok.mpr rfl, hs, nofun⟩
  | cons x xs ih =>
      obtain ⟨u, hx, hu, hq, -⟩ := hstep x List.mem_cons_self s hs
      -- What the first step establishes is part of the invariant of the others.
      have hrest : ∀ y ∈ xs, ∀ v, P v ∧ Q x v → ∃ w, f y v = .ok .unit w ∧ (P w ∧ Q x w) ∧ Q y w ∧
          ∀ z, Q z v → Q z w := by
        rintro y hy v ⟨hv, hqv⟩
        obtain ⟨w, hw, hpw, hqw, hkeep⟩ := hstep y (List.mem_cons_of_mem _ hy) v hv
        exact ⟨w, hw, ⟨hpw, hkeep x hqv⟩, hqw, hkeep⟩
      obtain ⟨t, hxs, ⟨ht, hqt⟩, hall⟩ := ih hrest ⟨hu, hq⟩
      exact ⟨t, forM_cons_ok.mpr ⟨u, hx, hxs⟩, ht, List.forall_mem_cons.mpr ⟨hqt, hall⟩⟩

/-- As above, for steps that depend on where in the list they stand. -/
theorem forM_prefixes_establishes {f : α → EStateM ε σ PUnit} {P : List α → σ → Prop} {xs : List α}
    {s : σ} (hstep : ∀ {done x rest s}, xs = done ++ x :: rest → P done s →
      ∃ t, f x s = .ok .unit t ∧ P (done ++ [x]) t) (hs : P [] s) :
    ∃ t, xs.forM f s = .ok .unit t ∧ P xs t := by
  suffices hrun : ∀ rest done u, xs = done ++ rest → P done u →
      ∃ t, rest.forM f u = .ok .unit t ∧ P xs t from hrun xs [] s rfl hs
  intro rest
  induction rest with
  | nil =>
      intro done u hxs hu
      rw [hxs, List.append_nil]
      exact ⟨u, rfl, hu⟩
  | cons x rest ih =>
      intro done u hxs hu
      obtain ⟨v, hx, hv⟩ := hstep hxs hu
      obtain ⟨t, hrest, ht⟩ := ih (done ++ [x]) v (by rw [hxs, List.append_cons]) hv
      exact ⟨t, forM_cons_ok.mpr ⟨v, hx, hrest⟩, ht⟩

theorem forM_prefixes_succeeds {f : α → EStateM ε σ PUnit} {P : List α → σ → Prop} {xs : List α}
    {s : σ} (hstep : ∀ {done x rest s}, xs = done ++ x :: rest → P done s →
      ∃ t, f x s = .ok .unit t ∧ P (done ++ [x]) t) (hs : P [] s) :
    ∃ t, xs.forM f s = .ok .unit t := by
  obtain ⟨t, hok, -⟩ := forM_prefixes_establishes hstep hs
  exact ⟨t, hok⟩

end Step

namespace LinkM

@[simp]
theorem onRegistry_ok {α : Type} {x : RegistryM α} {l l' : Linker} {a : α} :
    onRegistry x l = .ok a l' ↔ ∃ r, x l.registry = .ok a r ∧ { l with registry := r } = l' := by
  unfold onRegistry
  cases x l.registry with
  | ok b r => simp [and_assoc]
  | error e r => simp

@[simp]
theorem fail_ok {α : Type} {e : Error} {l l' : Linker} {a : α} :
    (fail e : LinkM α) l = .ok a l' ↔ False := Step.throw_ok

@[simp]
theorem mapError_ok {α : Type} {f : Error → Error} {x : LinkM α} {l l' : Linker} {a : α} :
    mapError f x l = .ok a l' ↔ x l = .ok a l' := by
  unfold mapError
  cases x l with
  | ok b l => simp
  | error e l => cases e <;> simp

@[simp]
theorem registered?_ok {name : Text} {l l' : Linker} {row : Option Nat} :
    registered? name l = .ok row l' ↔ l.registry.find? name = row ∧ l = l' := by
  simp [registered?, and_assoc, and_comm]

@[simp]
theorem giveUp_ok {α : Type} {l l' : Linker} {a : α} : (giveUp : LinkM α) l = .ok a l' ↔ False :=
  iff_of_false nofun id

@[simp]
theorem ask_ok {s : Source} {name : Text} {l l' : Linker} {answer : Except Error ClassDecl} :
    ask s name l = .ok answer l' ↔
      s.load name = answer ∧ { l with asked := name :: l.asked } = l' := by
  simp [ask]

@[simp]
theorem push_ok {m : Member} {l l' : Linker} {u : Unit} :
    push m l = .ok u l' ↔ { l with pending := m :: l.pending } = l' := Step.modify_ok

end LinkM

namespace RegistryM

@[simp]
theorem inconsistent_ok {α : Type} {cause : Inconsistency} {r r' : Registry} {a : α} :
    (inconsistent cause : RegistryM α) r = .ok a r' ↔ False := Step.throw_ok

@[simp]
theorem inconsistent_error {α : Type} {cause : Inconsistency} {r r' : Registry} {e : Failure} :
    (inconsistent cause : RegistryM α) r = .error e r' ↔ .internal cause = e ∧ r = r' :=
  Step.throw_error

@[simp]
theorem checkOpen_ok {op : RegistryOp} {r r' : Registry} {u : Unit} :
    checkOpen op r = .ok u r' ↔ r.closed = false ∧ r = r' := by
  cases h : r.closed <;> simp [checkOpen, and_assoc, h]

@[simp]
theorem checkOpen_error {op : RegistryOp} {r r' : Registry} {e : Failure} :
    checkOpen op r = .error e r' ↔ r.closed = true ∧ .internal (.closed op) = e ∧ r = r' := by
  cases h : r.closed <;> simp [checkOpen, and_assoc, h]

@[simp]
theorem classAt_ok {row : Nat} {r r' : Registry} {c : Class} :
    classAt row r = .ok c r' ↔ r.classAt? row = some c ∧ r = r' := by
  cases h : r.classAt? row <;> simp [classAt, and_assoc, h]

@[simp]
theorem classAt_error {row : Nat} {r r' : Registry} {e : Failure} :
    classAt row r = .error e r' ↔ r.classAt? row = none ∧ .fault = e ∧ r = r' := by
  cases h : r.classAt? row <;> simp [classAt, and_assoc, h]

@[simp]
theorem refAt_ok {a : RefAddr} {r r' : Registry} {ref : Reference} :
    refAt a r = .ok ref r' ↔ r.refAt? a = some ref ∧ r = r' := by
  cases h : r.refAt? a <;> simp [refAt, and_assoc, h]

@[simp]
theorem refAt_error {a : RefAddr} {r r' : Registry} {e : Failure} :
    refAt a r = .error e r' ↔ r.refAt? a = none ∧ .fault = e ∧ r = r' := by
  cases h : r.refAt? a <;> simp [refAt, and_assoc, h]

end RegistryM

namespace LinkM

@[simp]
theorem readClass_ok {row : Nat} {l l' : Linker} {c : Class} :
    onRegistry (RegistryM.classAt row) l = .ok c l' ↔
      l.registry.classAt? row = some c ∧ l = l' := by
  simp only [onRegistry_ok, RegistryM.classAt_ok, and_assoc]
  constructor
  · rintro ⟨r, hc, rfl, rfl⟩
    exact ⟨hc, rfl⟩
  · rintro ⟨hc, rfl⟩
    exact ⟨l.registry, hc, rfl, rfl⟩

@[simp]
theorem readRef_ok {a : RefAddr} {l l' : Linker} {ref : Reference} :
    onRegistry (RegistryM.refAt a) l = .ok ref l' ↔ l.registry.refAt? a = some ref ∧ l = l' := by
  simp only [onRegistry_ok, RegistryM.refAt_ok, and_assoc]
  constructor
  · rintro ⟨r, href, rfl, rfl⟩
    exact ⟨href, rfl⟩
  · rintro ⟨href, rfl⟩
    exact ⟨l.registry, href, rfl, rfl⟩

end LinkM

end ClassLinker
