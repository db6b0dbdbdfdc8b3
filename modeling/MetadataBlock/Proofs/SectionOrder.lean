import MetadataBlock.Lint.Run

/-!
# The order of sections

Sections are taken in canonical order, those of one place in source order.

- `Mapping.sourceSections`: the sections in source order;
- `sections_perm`, `mem_sections`, `length_sections`: no section is lost or added;
- `sections_of_pairwise`: sections that stand in canonical order stay as they are;
- `sections_eq`: place by place, the sections are those of the source.
-/

namespace MetadataBlock

/-! ## Lists in order of a number -/

section

variable {α : Type} {place : α → Nat}

/-- A list in order begins with all that comes before a place, and ends with the rest. -/
theorem filter_lt_append_filter_ge {l : List α} (h : l.Pairwise fun a b => place a ≤ place b)
    (n : Nat) : l.filter (place · < n) ++ l.filter (n ≤ place ·) = l := by
  induction l with
  | nil => rfl
  | cons a l ih =>
    obtain ⟨hfirst, hrest⟩ := List.pairwise_cons.mp h
    by_cases hlt : place a < n
    · have hpos : decide (place a < n) = true := decide_eq_true hlt
      have hneg : ¬ decide (n ≤ place a) = true := by simpa using hlt
      rw [List.filter_cons_of_pos (p := (place · < n)) hpos,
        List.filter_cons_of_neg (p := (n ≤ place ·)) hneg, List.cons_append, ih hrest]
    -- the first element is not before the place, so no other one is
    · have hnone : (a :: l).filter (place · < n) = [] := by
        rw [List.filter_eq_nil_iff, List.forall_mem_cons]
        refine ⟨by simpa using hlt, fun b hb => ?_⟩
        have := hfirst b hb
        simp only [decide_eq_true_eq]
        omega
      have hall : (a :: l).filter (n ≤ place ·) = a :: l := by
        rw [List.filter_eq_self, List.forall_mem_cons]
        refine ⟨by simpa using hlt, fun b hb => ?_⟩
        have := hfirst b hb
        simp only [decide_eq_true_eq]
        omega
      rw [hnone, hall, List.nil_append]

/-- A list in order consists of its places, one after another. The induction adds one place,
which follows all that come before it. -/
theorem filter_lt_eq_flatMap {l : List α} (h : l.Pairwise fun a b => place a ≤ place b) (n : Nat) :
    l.filter (place · < n) = (List.range n).flatMap fun k => l.filter (place · = k) := by
  induction n with
  | zero =>
    rw [List.range_zero, List.flatMap_nil, List.filter_eq_nil_iff]
    intro a _
    simp
  | succ n ih =>
    -- what comes before the next place comes before this one, or stands at it
    have hsplit := filter_lt_append_filter_ge (h.filter (place · < n + 1)) n
    rw [List.filter_filter, List.filter_filter] at hsplit
    rw [List.range_succ, List.flatMap_append, List.flatMap_singleton, ← ih, ← hsplit]
    congr 1
    · refine List.filter_congr fun a _ => ?_
      rw [Bool.eq_iff_iff]
      simp only [Bool.and_eq_true, decide_eq_true_eq]
      omega
    · refine List.filter_congr fun a _ => ?_
      rw [Bool.eq_iff_iff]
      simp only [Bool.and_eq_true, decide_eq_true_eq]
      omega

end

/-! ## Sections -/

/-- The sections in source order. -/
def Mapping.sourceSections (document : Document) : List Section :=
  document.entries.map fun e => ⟨e.key, e.value⟩

theorem sections_perm (document : Document) :
    document.sections.Perm document.sourceSections :=
  List.mergeSort_perm _ _

/-- The sections are the entries, in whatever order. -/
theorem mem_sections {document : Document} {s : Section} :
    s ∈ document.sections ↔ ∃ e ∈ document.entries, s = ⟨e.key, e.value⟩ := by
  rw [(sections_perm document).mem_iff, Mapping.sourceSections, List.mem_map]
  constructor
  · rintro ⟨e, he, rfl⟩
    exact ⟨e, he, rfl⟩
  · rintro ⟨e, he, rfl⟩
    exact ⟨e, he, rfl⟩

theorem length_sections (document : Document) :
    document.sections.length = document.entries.length := by
  rw [(sections_perm document).length_eq, Mapping.sourceSections, List.length_map]

/-- Sections in canonical order stay as they are. -/
theorem sections_of_pairwise {document : Document}
    (h : document.entries.Pairwise fun a b => keywordOrder a.key ≤ keywordOrder b.key) :
    document.sections = document.sourceSections := by
  refine List.mergeSort_of_pairwise ?_
  rw [List.pairwise_map]
  exact h.imp fun hab => decide_eq_true hab

/-- The canonical order as a relation that can be computed. -/
def Section.before (a b : Section) : Bool :=
  keywordOrder a.keyword ≤ keywordOrder b.keyword

theorem before_trans (a b c : Section) (hab : a.before b = true) (hbc : b.before c = true) :
    a.before c = true :=
  decide_eq_true (Nat.le_trans (of_decide_eq_true hab) (of_decide_eq_true hbc))

theorem before_total (a b : Section) : (a.before b || b.before a) = true := by
  rw [Section.before, Section.before, Bool.or_eq_true, decide_eq_true_iff, decide_eq_true_iff]
  exact Nat.le_total _ _

/-- Sections are in canonical order. -/
theorem pairwise_sections (document : Document) :
    document.sections.Pairwise fun a b => keywordOrder a.keyword ≤ keywordOrder b.keyword := by
  have hsorted : document.sections.Pairwise fun a b => a.before b = true :=
    List.pairwise_mergeSort before_trans before_total _
  exact hsorted.imp fun hab => of_decide_eq_true hab

/-- Sections of one place keep their source order, as the sorting is stable. -/
theorem filter_sections (document : Document) (k : Nat) :
    document.sections.filter (fun s => keywordOrder s.keyword = k)
      = document.sourceSections.filter fun s => keywordOrder s.keyword = k := by
  have hplace : ∀ s ∈ document.sourceSections.filter (fun s => keywordOrder s.keyword = k),
      keywordOrder s.keyword = k := by
    intro s hs
    exact of_decide_eq_true (List.mem_filter.mp hs).2
  have hsub : (document.sourceSections.filter fun s => keywordOrder s.keyword = k).Sublist
      document.sections := by
    refine List.sublist_mergeSort before_trans before_total ?_ List.filter_sublist
    refine List.pairwise_of_forall_mem_list fun a ha b hb => ?_
    exact decide_eq_true (Nat.le_of_eq ((hplace a ha).trans (hplace b hb).symm))
  have hfilter := hsub.filter fun s => keywordOrder s.keyword = k
  rw [List.filter_filter] at hfilter
  simp only [Bool.and_self] at hfilter
  exact (hfilter.eq_of_length ((sections_perm document).filter _).length_eq.symm).symm

/-- There are four places: one for every keyword, and one for all unknown ones. -/
theorem keywordOrder_lt (keyword : Text) : keywordOrder keyword < 4 := by
  rw [keywordOrder]
  split
  · next k _ => cases k <;> decide
  · decide

/-- The sections in canonical order are those of the source, place by place. This form can be
computed, and it shows what another order in the source does to it. -/
theorem sections_eq (document : Document) :
    document.sections = (List.range 4).flatMap fun k =>
      document.sourceSections.filter fun s => keywordOrder s.keyword = k := by
  have hall : document.sections.filter (fun s => keywordOrder s.keyword < 4)
      = document.sections := by
    rw [List.filter_eq_self]
    exact fun s _ => decide_eq_true (keywordOrder_lt s.keyword)
  rw [← hall, filter_lt_eq_flatMap (pairwise_sections document)]
  exact congrArg List.flatten (List.map_congr_left fun k _ => filter_sections document k)

end MetadataBlock
