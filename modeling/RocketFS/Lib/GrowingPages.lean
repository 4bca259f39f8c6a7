import Mathlib.Data.List.Pairwise
import Mathlib.Data.Set.Basic
import Mathlib.Order.Lattice

/-!
# Reading a growing set page by page

A linearly ordered set is read in pages of bounded length, each of them without gaps. A page
begins at the element that was read last, and so repeats it; the set may grow between two
pages. A reader who drops the first element of every page but the first reads in strictly
increasing order, and has read everything that was there at the beginning when a page is not
full (`PagesFrom.complete`).

Pages of one element are a trap: every page but the first holds nothing but the element it
begins at, and it is always full (`PagesFrom.one_more`).
-/

namespace RocketFS

variable {α : Type*} [LinearOrder α]

/-- The page holds the first elements of the set from `start` on, up to the limit. -/
structure IsPageFrom (S : Set α) (start : α) (limit : ℕ) (page : List α) : Prop where
  length_le : page.length ≤ limit
  sorted : page.Pairwise (· < ·)
  subset : ∀ a ∈ page, a ∈ S ∧ start ≤ a
  gapFree : ∀ a ∈ S, start ≤ a → a ∈ page ∨ page.length = limit ∧ ∀ b ∈ page, b < a

/-- Pages read one after the other: the set at the last page, what the reader has received,
and whether the last page was full. At the beginning there was at least `S₀`. -/
inductive PagesFrom (start : α) (limit : ℕ) (S₀ : Set α) : Set α → List α → Bool → Prop
  | first {S : Set α} {page : List α} : S₀ ⊆ S → IsPageFrom S start limit page →
      PagesFrom start limit S₀ S page (page.length = limit)
  | next {S S' : Set α} {received page : List α} {last : α} :
      PagesFrom start limit S₀ S received true → received.getLast? = some last → S ⊆ S' →
      IsPageFrom S' last limit page →
      PagesFrom start limit S₀ S' (received ++ page.tail) (page.length = limit)

variable {S S₀ : Set α} {start last a : α} {limit : ℕ} {page received : List α} {more : Bool}

/-- The elements of a sorted list from `start` on, up to the limit. -/
theorem isPageFrom_take {l : List α} (hsorted : l.Pairwise (· < ·)) (hmem : ∀ a, a ∈ l ↔ a ∈ S)
    (start : α) (limit : ℕ) :
    IsPageFrom S start limit ((l.filter fun a => start ≤ a).take limit) := by
  have hfilter := hsorted.filter fun a => decide (start ≤ a)
  constructor
  case length_le => exact List.length_take_le _ _
  case sorted => exact hfilter.sublist (List.take_sublist _ _)
  case subset =>
    intro a ha
    have hboth := List.mem_filter.mp (List.mem_of_mem_take ha)
    exact ⟨(hmem a).mp hboth.1, of_decide_eq_true hboth.2⟩
  case gapFree =>
    intro a ha hstart
    have hin : a ∈ l.filter fun a => start ≤ a :=
      List.mem_filter.mpr ⟨(hmem a).mpr ha, decide_eq_true hstart⟩
    rw [← List.take_append_drop limit (l.filter fun a => decide (start ≤ a))] at hin hfilter
    rcases List.mem_append.mp hin with htake | hdrop
    · exact .inl htake
    · refine .inr ⟨?_, fun b hb => (List.pairwise_append.mp hfilter).2.2 b hb a hdrop⟩
      have := List.length_pos_of_mem hdrop
      rw [List.length_drop] at this
      rw [List.length_take]
      omega

/-- A page begins at the element it is asked to begin at, if that is there. -/
theorem IsPageFrom.exists_cons (h : IsPageFrom S last limit page) (hlast : last ∈ S)
    (hlimit : 0 < limit) : ∃ rest, page = last :: rest := by
  have hmem : last ∈ page := by
    rcases h.gapFree last hlast le_rfl with hmem | ⟨hfull, hall⟩
    · exact hmem
    · obtain ⟨b, hb⟩ := List.exists_mem_of_length_pos (hfull ▸ hlimit)
      exact absurd (hall b hb) (h.subset b hb).2.not_gt
  cases page with
  | nil => cases hmem
  | cons first rest =>
    rcases List.mem_cons.mp hmem with rfl | hrest
    · exact ⟨rest, rfl⟩
    · have hlt := (List.pairwise_cons.mp h.sorted).1 last hrest
      exact absurd hlt (h.subset first List.mem_cons_self).2.not_gt

/-- What the reader knows after some pages. -/
structure ReadInv (start : α) (S₀ S : Set α) (received : List α) (more : Bool) : Prop where
  grown : S₀ ⊆ S
  sorted : received.Pairwise (· < ·)
  subset : ∀ a ∈ received, a ∈ S
  covers : ∀ a ∈ S₀, start ≤ a → a ∈ received ∨ more = true ∧ ∀ b ∈ received, b < a

theorem le_last (hsorted : received.Pairwise (· < ·)) (hlast : received.getLast? = some last)
    (ha : a ∈ received) : a ≤ last := by
  obtain ⟨front, rfl⟩ := List.getLast?_eq_some_iff.mp hlast
  rcases List.mem_append.mp ha with hfront | hend
  · exact ((List.pairwise_append.mp hsorted).2.2 a hfront last List.mem_cons_self).le
  · exact (List.mem_singleton.mp hend).le

theorem PagesFrom.readInv (hlimit : 0 < limit) (h : PagesFrom start limit S₀ S received more) :
    ReadInv start S₀ S received more := by
  induction h with
  | first hgrown hpage =>
    refine ⟨hgrown, hpage.sorted, fun a ha => (hpage.subset a ha).1, fun a ha hstart => ?_⟩
    refine (hpage.gapFree a (hgrown ha) hstart).imp_right ?_
    exact fun hfull => ⟨decide_eq_true hfull.1, hfull.2⟩
  | @next S S' received page last _ hlast hgrown hpage ih =>
    have hmem : last ∈ received := List.mem_of_getLast? hlast
    obtain ⟨rest, rfl⟩ := hpage.exists_cons (hgrown (ih.subset last hmem)) hlimit
    obtain ⟨hfirst, hrest⟩ := List.pairwise_cons.mp hpage.sorted
    constructor
    case grown => exact ih.grown.trans hgrown
    case sorted =>
      refine List.pairwise_append.mpr ⟨ih.sorted, hrest, fun a ha b hb => ?_⟩
      exact (le_last ih.sorted hlast ha).trans_lt (hfirst b hb)
    case subset =>
      intro a ha
      rcases List.mem_append.mp ha with hold | hnew
      · exact hgrown (ih.subset a hold)
      · exact (hpage.subset a (List.mem_cons_of_mem _ hnew)).1
    case covers =>
      intro a ha hstart
      rcases ih.covers a ha hstart with hold | ⟨_, hbelow⟩
      · exact .inl (List.mem_append_left _ hold)
      -- what has not been read stands behind the last element, and is read or still to come
      · have hbehind := hbelow last hmem
        rcases hpage.gapFree a (hgrown (ih.grown ha)) hbehind.le with hread | ⟨hfull, hall⟩
        · refine .inl (List.mem_append_right _ ?_)
          exact (List.mem_cons.mp hread).resolve_left hbehind.ne'
        · refine .inr ⟨decide_eq_true hfull, fun b hb => ?_⟩
          rcases List.mem_append.mp hb with hold | hnew
          · exact hbelow b hold
          · exact hall b (List.mem_cons_of_mem _ hnew)

/-- Where the next page begins. -/
theorem PagesFrom.exists_last (hlimit : 0 < limit)
    (h : PagesFrom start limit S₀ S received true) : ∃ last, received.getLast? = some last := by
  have hne : received ≠ [] := by
    generalize hmore : true = more at h
    cases h with
    | first _ _ =>
      refine List.ne_nil_of_length_pos ?_
      rw [of_decide_eq_true hmore.symm]
      exact hlimit
    | next _ hlast _ _ =>
      exact List.append_ne_nil_of_left_ne_nil (List.ne_nil_of_mem (List.mem_of_getLast? hlast)) _
  exact ⟨_, List.getLast?_eq_some_getLast hne⟩

/-- When a page is not full, everything that was there at the beginning has been read. -/
theorem PagesFrom.complete (hlimit : 0 < limit) (h : PagesFrom start limit S₀ S received false)
    (ha : a ∈ S₀) (hstart : start ≤ a) : a ∈ received := by
  rcases (h.readInv hlimit).covers a ha hstart with hread | ⟨hmore, _⟩
  · exact hread
  · cases hmore

/-- Pages of one element never end, and show nothing but the first element. -/
theorem PagesFrom.one_more (h : PagesFrom start 1 S₀ S received more) (hne : received ≠ []) :
    more = true ∧ ∃ a, received = [a] := by
  induction h with
  | @first S page _ hpage =>
    have hone : page.length = 1 := by
      have hle := hpage.length_le
      have hpos := List.length_pos_iff.mpr hne
      omega
    exact ⟨decide_eq_true hone, List.length_eq_one_iff.mp hone⟩
  | @next S S' received page last hpages hlast hgrown hpage ih =>
    have hmem : last ∈ received := List.mem_of_getLast? hlast
    obtain ⟨_, a, rfl⟩ := ih (List.ne_nil_of_mem hmem)
    have hthere : last ∈ S := (hpages.readInv Nat.one_pos).subset last hmem
    obtain ⟨rest, rfl⟩ := hpage.exists_cons (hgrown hthere) Nat.one_pos
    obtain rfl : rest = [] := by
      have hle := hpage.length_le
      rw [List.length_cons] at hle
      exact List.length_eq_zero_iff.mp (by omega)
    exact ⟨rfl, a, rfl⟩

end RocketFS
