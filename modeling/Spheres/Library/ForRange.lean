import Mathlib.Data.List.Basic

/-!
# Counting loops that may fail

`forRange n body` is the loop `for (i = 0; i < n; i++)` whose body may end the
program. A loop that keeps an invariant runs to its end (`forRange_ok`), a loop
whose states are known is computed (`forRange_eq`), and a first round that fails
ends it (`forRange_error`).
-/

namespace Spheres.Library

universe u

variable {σ α : Type u} {ε : Type*} {n : Nat} {body : Nat → σ → Except ε σ} {s : σ} {e : ε}

def forRange (n : Nat) (body : Nat → σ → Except ε σ) (s : σ) : Except ε σ :=
  (List.range n).foldlM (fun s i => body i s) s

@[simp] theorem ok_bind (a : α) (f : α → Except ε σ) : (Except.ok a >>= f) = f a := rfl

@[simp] theorem error_bind (f : α → Except ε σ) : (Except.error e >>= f) = .error e := rfl

/-- The rest of a program after a part that is known to run. -/
theorem bind_of_ok {x : Except ε σ} {f : σ → Except ε α} {a : σ} {y : Except ε α} (h : x = .ok a)
    (hf : f a = y) : (x >>= f) = y := by
  rw [h, ok_bind, hf]

theorem bind_of_error {x : Except ε σ} {f : σ → Except ε α} (h : x = .error e) :
    (x >>= f) = .error e := by
  rw [h, error_bind]

theorem forRange_succ : forRange (n + 1) body s = forRange n body s >>= body n := by
  simp only [forRange, List.range_succ, List.foldlM_append, List.foldlM_cons, List.foldlM_nil,
    bind_pure]

theorem forRange_congr {body' : Nat → σ → Except ε σ} (h : ∀ i < n, ∀ s, body i s = body' i s) :
    forRange n body s = forRange n body' s := by
  induction n with
  | zero => rfl
  | succ n ih =>
    have hlast : body n = body' n := funext (h n (by omega))
    rw [forRange_succ, forRange_succ, ih fun i hi => h i (by omega), hlast]

/-- A loop as its first `k` rounds, the next one and a rest. -/
theorem forRange_at {k : Nat} (hk : k < n) (body : Nat → σ → Except ε σ) :
    ∃ rest : σ → Except ε σ, ∀ s, forRange n body s =
      forRange k body s >>= fun s => body k s >>= rest := by
  refine ⟨fun s => (List.range' (k + 1) (n - (k + 1))).foldlM (fun s i => body i s) s, fun s => ?_⟩
  have hsplit : List.range n = List.range k ++ k :: List.range' (k + 1) (n - (k + 1)) := by
    rw [List.range_eq_range', List.range_eq_range', ← List.range'_succ]
    rw [show n - (k + 1) + 1 = n - k by omega]
    have := List.range'_append_1 (s := 0) (m := k) (n := n - k)
    rw [Nat.zero_add, Nat.add_sub_cancel' (Nat.le_of_lt hk)] at this
    exact this.symm
  rw [forRange, hsplit, List.foldlM_append]
  rfl

/-- A loop whose state before each round is known. -/
theorem forRange_eq (f : Nat → σ) (h0 : f 0 = s) (h : ∀ i < n, body i (f i) = .ok (f (i + 1))) :
    forRange n body s = .ok (f n) := by
  subst h0
  induction n with
  | zero => rfl
  | succ n ih =>
    rw [forRange_succ, ih fun i hi => h i (by omega), ok_bind]
    exact h n (by omega)

/-- A loop whose rounds all run and keep an invariant. -/
theorem forRange_ok (inv : Nat → σ → Prop) (h0 : inv 0 s)
    (h : ∀ i < n, ∀ s, inv i s → ∃ s', body i s = .ok s' ∧ inv (i + 1) s') :
    ∃ s', forRange n body s = .ok s' ∧ inv n s' := by
  induction n with
  | zero => exact ⟨s, rfl, h0⟩
  | succ n ih =>
    obtain ⟨t, ht, hinv⟩ := ih fun i hi => h i (by omega)
    obtain ⟨s', hs', hinv'⟩ := h n (by omega) t hinv
    exact ⟨s', by rw [forRange_succ, ht, ok_bind, hs'], hinv'⟩

theorem forRange_error (hn : 0 < n) (h : body 0 s = .error e) :
    forRange n body s = .error e := by
  obtain ⟨n, rfl⟩ := Nat.exists_eq_add_of_le' hn
  simp only [forRange, List.range_succ_eq_map, List.foldlM_cons, h, error_bind]

/-- A round that fails, after rounds that run. -/
theorem forRange_error_at {i : Nat} (hi : i < n) {t : σ} (hrun : forRange i body s = .ok t)
    (h : body i t = .error e) : forRange n body s = .error e := by
  induction n with
  | zero => exact absurd hi (Nat.not_lt_zero _)
  | succ n ih =>
    rw [forRange_succ]
    rcases Nat.lt_succ_iff_lt_or_eq.mp hi with hlt | rfl
    · rw [ih hlt, error_bind]
    · rw [hrun, ok_bind, h]

theorem foldlM_one {β : Type*} {f : σ → β → Except ε σ} {b : β} : [b].foldlM f s = f s b := by
  simp only [List.foldlM_cons, List.foldlM_nil, bind_pure]

/-! ## Reading one after the other -/

theorem mapM_ok {f : Nat → Except ε α} {g : Nat → α} {l : List Nat}
    (h : ∀ i ∈ l, f i = .ok (g i)) : l.mapM f = .ok (l.map g) := by
  induction l with
  | nil => rfl
  | cons i l ih =>
    rw [List.mapM_cons, h i List.mem_cons_self, ok_bind,
      ih fun j hj => h j (List.mem_cons_of_mem _ hj), ok_bind]
    rfl

theorem mapM_range_error {f : Nat → Except ε α} (hn : 0 < n) (h : f 0 = .error e) :
    (List.range n).mapM f = .error e := by
  obtain ⟨n, rfl⟩ := Nat.exists_eq_add_of_le' hn
  rw [List.range_succ_eq_map, List.mapM_cons, h, error_bind]

end Spheres.Library
