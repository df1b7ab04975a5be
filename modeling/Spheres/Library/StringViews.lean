import Mathlib.Data.List.Basic

/-!
# Views of one memory

A string view is a start and a size. Views of one memory may tile a part of it, with
empty views anywhere between them that stand for nothing; then what they show, one
behind the other, is that part.
-/

namespace Spheres.Library

/-- `std::string_view`; the view `{}` starts nowhere. -/
structure StringView where
  data : Option Nat
  size : Nat
  deriving DecidableEq

namespace StringView

variable {β : Type*}

def null : StringView := ⟨none, 0⟩

/-- What a view shows, where it lies inside the memory. -/
def read (mem : List β) (v : StringView) : Option (List β) :=
  if v.size = 0 then some []
  else v.data.bind fun d => if d + v.size ≤ mem.length then some ((mem.drop d).take v.size) else none

/-- The views of a list that are not empty. -/
def live (vs : List StringView) : List StringView := vs.filter fun v => v.size ≠ 0

/-- What the views of a list show that are not empty. -/
def segments (mem : List β) (vs : List StringView) : List (List β) :=
  (live vs).map fun v => (mem.drop (v.data.getD 0)).take v.size

/-- The views tile the memory from `start` to `stop`. -/
def Contiguous : Nat → List StringView → Nat → Prop
  | start, [], stop => start = stop
  | start, v :: vs, stop =>
    if v.size = 0 then Contiguous start vs stop
    else v.data = some start ∧ Contiguous (start + v.size) vs stop

variable {mem : List β} {v : StringView} {vs ws : List StringView} {start mid stop : Nat}

theorem live_append : live (vs ++ ws) = live vs ++ live ws := List.filter_append ..

theorem live_cons (h : v.size ≠ 0) : live (v :: vs) = v :: live vs :=
  List.filter_cons_of_pos (decide_eq_true h)

theorem live_cons_empty (h : v.size = 0) : live (v :: vs) = live vs :=
  List.filter_cons_of_neg (by simp [h])

theorem live_of_empty (h : ∀ v ∈ vs, v.size = 0) : live vs = [] :=
  List.filter_eq_nil_iff.mpr fun v hv => by simp [h v hv]

theorem segments_append : segments mem (vs ++ ws) = segments mem vs ++ segments mem ws := by
  rw [segments, live_append, List.map_append]
  rfl

theorem segments_cons (h : v.size ≠ 0) :
    segments mem (v :: vs) = (mem.drop (v.data.getD 0)).take v.size :: segments mem vs := by
  rw [segments, live_cons h, List.map_cons]
  rfl

theorem segments_of_empty (h : ∀ v ∈ vs, v.size = 0) : segments mem vs = [] := by
  rw [segments, live_of_empty h, List.map_nil]

theorem contiguous_cons (h : v.size ≠ 0) :
    Contiguous start (v :: vs) stop ↔ v.data = some start ∧ Contiguous (start + v.size) vs stop := by
  rw [Contiguous, if_neg h]

theorem contiguous_of_empty (h : ∀ v ∈ vs, v.size = 0) :
    Contiguous start vs stop ↔ start = stop := by
  induction vs with
  | nil => exact Iff.rfl
  | cons v vs ih =>
    rw [Contiguous, if_pos (h v List.mem_cons_self)]
    exact ih fun w hw => h w (List.mem_cons_of_mem _ hw)

theorem contiguous_append :
    Contiguous start (vs ++ ws) stop ↔
      ∃ mid, Contiguous start vs mid ∧ Contiguous mid ws stop := by
  induction vs generalizing start with
  | nil =>
    constructor
    · intro h
      exact ⟨start, rfl, h⟩
    · rintro ⟨mid, rfl, h⟩
      exact h
  | cons v vs ih =>
    by_cases h : v.size = 0
    · simp only [List.cons_append, Contiguous, if_pos h, ih]
    · simp only [List.cons_append, contiguous_cons h, ih]
      constructor
      · rintro ⟨hdata, mid, hvs, hws⟩
        exact ⟨mid, ⟨hdata, hvs⟩, hws⟩
      · rintro ⟨mid, ⟨hdata, hvs⟩, hws⟩
        exact ⟨hdata, mid, hvs, hws⟩

theorem Contiguous.le (h : Contiguous start vs stop) : start ≤ stop := by
  induction vs generalizing start with
  | nil => exact Nat.le_of_eq h
  | cons v vs ih =>
    by_cases hv : v.size = 0
    · rw [Contiguous, if_pos hv] at h
      exact ih h
    · exact Nat.le_trans (Nat.le_add_right _ _) (ih ((contiguous_cons hv).mp h).2)

/-- Tiles show the part of the memory that they cover. -/
theorem Contiguous.flatten_segments (h : Contiguous start vs stop) :
    (segments mem vs).flatten = (mem.drop start).take (stop - start) := by
  induction vs generalizing start with
  | nil =>
    obtain rfl : start = stop := h
    rw [Nat.sub_self, List.take_zero]
    rfl
  | cons v vs ih =>
    by_cases hv : v.size = 0
    · rw [Contiguous, if_pos hv] at h
      rw [segments, live_cons_empty hv]
      exact ih h
    · obtain ⟨hdata, hrest⟩ := (contiguous_cons hv).mp h
      have hle := hrest.le
      have hsplit : stop - start = v.size + (stop - (start + v.size)) := by omega
      rw [segments_cons hv, List.flatten_cons, ih hrest, hdata, Option.getD_some, hsplit,
        List.take_add, List.drop_drop]

theorem read_eq {d : Nat} (hdata : v.data = some d) (h : d + v.size ≤ mem.length) :
    v.read mem = some ((mem.drop d).take v.size) := by
  by_cases hv : v.size = 0
  · rw [read, if_pos hv, hv, List.take_zero]
  · rw [read, if_neg hv, hdata, Option.bind_some, if_pos h]

/-- The views that are not empty can all be read. -/
theorem Contiguous.mapM_read (h : Contiguous start vs stop) (hstop : stop ≤ mem.length) :
    (live vs).mapM (read mem) = some (segments mem vs) := by
  induction vs generalizing start with
  | nil => rfl
  | cons v vs ih =>
    by_cases hv : v.size = 0
    · rw [Contiguous, if_pos hv] at h
      rw [segments, live_cons_empty hv]
      exact ih h
    · obtain ⟨hdata, hrest⟩ := (contiguous_cons hv).mp h
      have hread := read_eq hdata (Nat.le_trans hrest.le hstop)
      rw [live_cons hv, List.mapM_cons, hread, segments_cons hv, hdata]
      simp only [Option.bind_eq_bind, Option.bind_some, ih hrest, Option.getD_some]
      rfl

/-! ## Two neighbours -/

/-- The first view of a list that is not empty, if there is one. -/
theorem exists_live (vs : List StringView) :
    (∀ v ∈ vs, v.size = 0) ∨
      ∃ E r B, vs = E ++ r :: B ∧ (∀ v ∈ E, v.size = 0) ∧ r.size ≠ 0 := by
  induction vs with
  | nil => exact Or.inl fun v hv => absurd hv List.not_mem_nil
  | cons v vs ih =>
    by_cases hv : v.size = 0
    · rcases ih with hall | ⟨E, r, B, rfl, hE, hr⟩
      · exact Or.inl (List.forall_mem_cons.mpr ⟨hv, hall⟩)
      · exact Or.inr ⟨v :: E, r, B, rfl, List.forall_mem_cons.mpr ⟨hv, hE⟩, hr⟩
    · exact Or.inr ⟨[], v, vs, rfl, fun w hw => absurd hw List.not_mem_nil, hv⟩

/-- Two tiles of a memory with nothing between them. -/
theorem Contiguous.neighbours {A E B : List StringView} {l r : StringView}
    (h : Contiguous start (A ++ l :: (E ++ r :: B)) stop) (hl : l.size ≠ 0)
    (hE : ∀ v ∈ E, v.size = 0) (hr : r.size ≠ 0) :
    ∃ d, Contiguous start A d ∧ l.data = some d ∧ r.data = some (d + l.size) ∧
      Contiguous (d + l.size + r.size) B stop := by
  obtain ⟨d, hA, hrest⟩ := contiguous_append.mp h
  obtain ⟨hdata, hrest⟩ := (contiguous_cons hl).mp hrest
  obtain ⟨e, hempty, hrest⟩ := contiguous_append.mp hrest
  obtain rfl := (contiguous_of_empty hE).mp hempty
  obtain ⟨hdata', hB⟩ := (contiguous_cons hr).mp hrest
  exact ⟨d, hA, hdata, hdata', hB⟩

section Join

variable {A E B : List StringView} {l r : StringView}

/-- The view of two neighbours. -/
def join (l r : StringView) : StringView := ⟨l.data, l.size + r.size⟩

theorem size_join_ne (hl : l.size ≠ 0) : (join l r).size ≠ 0 := by
  intro h
  exact hl (Nat.eq_zero_of_add_eq_zero h).1

/-- What lies between two neighbours, and the second one when it has been emptied. -/
theorem append_null (E B : List StringView) : E ++ null :: B = (E ++ [null]) ++ B := by
  rw [List.append_assoc, List.singleton_append]

theorem empty_append_null (hE : ∀ v ∈ E, v.size = 0) : ∀ v ∈ E ++ [null], v.size = 0 := by
  intro v hv
  rcases List.mem_append.mp hv with hv | hv
  · exact hE v hv
  · rw [List.mem_singleton.mp hv]
    rfl

/-- Joined neighbours are a tile. -/
theorem Contiguous.join (h : Contiguous start (A ++ l :: (E ++ r :: B)) stop) (hl : l.size ≠ 0)
    (hE : ∀ v ∈ E, v.size = 0) (hr : r.size ≠ 0) :
    Contiguous start (A ++ StringView.join l r :: (E ++ null :: B)) stop := by
  obtain ⟨d, hA, hleft, -, hB⟩ := h.neighbours hl hE hr
  refine contiguous_append.mpr ⟨d, hA, ?_⟩
  refine (contiguous_cons (size_join_ne hl)).mpr ⟨hleft, ?_⟩
  rw [append_null]
  refine contiguous_append.mpr ⟨d + (StringView.join l r).size, ?_, ?_⟩
  · exact (contiguous_of_empty (empty_append_null hE)).mpr rfl
  · rw [Nat.add_assoc] at hB
    exact hB

/-- Joined neighbours show what they have shown. -/
theorem Contiguous.segments_join (mem : List β)
    (h : Contiguous start (A ++ l :: (E ++ r :: B)) stop) (hl : l.size ≠ 0)
    (hE : ∀ v ∈ E, v.size = 0) (hr : r.size ≠ 0) :
    ∃ a b, segments mem (A ++ l :: (E ++ r :: B)) = segments mem A ++ a :: b :: segments mem B ∧
      segments mem (A ++ StringView.join l r :: (E ++ null :: B)) =
        segments mem A ++ (a ++ b) :: segments mem B := by
  obtain ⟨d, -, hleft, hright, -⟩ := h.neighbours hl hE hr
  refine ⟨(mem.drop (l.data.getD 0)).take l.size, (mem.drop (r.data.getD 0)).take r.size, ?_, ?_⟩
  · rw [segments_append, segments_cons hl, segments_append, segments_of_empty hE,
      List.nil_append, segments_cons hr]
  · have hshow : (mem.drop (l.data.getD 0)).take (l.size + r.size) =
        (mem.drop (l.data.getD 0)).take l.size ++ (mem.drop (r.data.getD 0)).take r.size := by
      rw [hleft, hright, Option.getD_some, Option.getD_some, ← List.drop_drop, ← List.take_add]
    rw [segments_append, segments_cons (size_join_ne hl), append_null, segments_append,
      segments_of_empty (empty_append_null hE), List.nil_append, ← hshow]
    rfl

end Join

end StringView

end Spheres.Library
