import Mathlib.Data.List.Nodup

/-!
# Assignments in a list

A list of pairs assigns values to keys, the last pair of a key counting. Where no key
repeats, the order of the list does not matter (`given_perm`). A fold that puts one
assignment after the other into a state puts what the list gives, all at once
(`foldlM_eq_ok`).
-/

namespace Spheres.Library.Assignments

universe u

variable {κ ν : Type*} [DecidableEq κ]

def single (a : κ × ν) : κ → Option ν := fun k => if k = a.1 then some a.2 else none

/-- What a list gives to a key. -/
def given : List (κ × ν) → κ → Option ν
  | [], _ => none
  | a :: l, k => (given l k).or (single a k)

variable {l l' : List (κ × ν)} {k : κ} {v : ν}

theorem mem_of_given (h : given l k = some v) : (k, v) ∈ l := by
  induction l with
  | nil => cases h
  | cons a l ih =>
    rw [given, Option.or_eq_some_iff] at h
    rcases h with h | ⟨-, h⟩
    · exact List.mem_cons_of_mem _ (ih h)
    · rw [single] at h
      split_ifs at h with hk
      rw [hk, ← Option.some.inj h]
      exact List.mem_cons_self

theorem given_eq_some_iff (hkeys : (l.map Prod.fst).Nodup) :
    given l k = some v ↔ (k, v) ∈ l := by
  refine ⟨mem_of_given, fun h => ?_⟩
  induction l with
  | nil => cases h
  | cons a l ih =>
    rw [List.map_cons, List.nodup_cons] at hkeys
    rw [given, Option.or_eq_some_iff]
    rcases List.mem_cons.mp h with rfl | h
    · refine Or.inr ⟨?_, if_pos rfl⟩
      by_contra hsome
      obtain ⟨w, hw⟩ := Option.ne_none_iff_exists'.mp hsome
      exact hkeys.1 (List.mem_map.mpr ⟨(k, w), mem_of_given hw, rfl⟩)
    · exact Or.inl (ih hkeys.2 h)

/-- The order of the assignments does not matter. -/
theorem given_perm (hkeys : (l.map Prod.fst).Nodup) (h : l.Perm l') : given l = given l' := by
  funext k
  apply Option.ext
  intro v
  rw [given_eq_some_iff hkeys, given_eq_some_iff ((h.map Prod.fst).nodup_iff.mp hkeys), h.mem_iff]

/-- A fold whose step puts a valid assignment into the state. -/
theorem foldlM_eq_ok {ε : Type*} {σ : Type u} {put : (κ → Option ν) → σ → σ}
    {step : σ → κ × ν → Except ε σ} {valid : κ × ν → Prop} {s s' : σ}
    (hnone : ∀ s, put (fun _ => none) s = s)
    (hput : ∀ g g' s, put g' (put g s) = put (fun k => (g' k).or (g k)) s)
    (hstep : ∀ s s' a, step s a = .ok s' ↔ valid a ∧ s' = put (single a) s) :
    l.foldlM step s = .ok s' ↔ (∀ a ∈ l, valid a) ∧ s' = put (given l) s := by
  induction l generalizing s with
  | nil =>
    rw [List.foldlM_nil]
    constructor
    · intro h
      refine ⟨fun a ha => absurd ha List.not_mem_nil, ?_⟩
      exact (Except.ok.inj h).symm.trans (hnone s).symm
    · rintro ⟨-, rfl⟩
      exact congrArg Except.ok (hnone s).symm
  | cons a l ih =>
    rw [List.foldlM_cons, List.forall_mem_cons]
    cases ha : step s a with
    | error e =>
      constructor
      · intro h
        cases h
      · rintro ⟨⟨hvalid, -⟩, -⟩
        rw [(hstep s _ a).mpr ⟨hvalid, rfl⟩] at ha
        cases ha
    | ok t =>
      obtain ⟨hvalid, rfl⟩ := (hstep s t a).mp ha
      have hstart : (Except.ok (put (single a) s) >>= fun s => l.foldlM step s) =
          l.foldlM step (put (single a) s) := rfl
      rw [hstart, ih, hput, and_iff_right hvalid]
      exact Iff.rfl

end Spheres.Library.Assignments
