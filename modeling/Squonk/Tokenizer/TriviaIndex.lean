import Squonk.Search.Partition
import Squonk.Tokenizer.Lossless

/-!
# The trivia of a place

The trivia of a source as an index that is asked for a span, or for what stands in front of a
token. A query searches the sorted runs by halving and answers what a scan of them would.
-/

open squonk.document search tiling

namespace squonk.tokenizer.scan

/-- The runs of a source, in its order; none overlaps another. -/
structure TriviaIndex where
  ranges : List TriviaRange
  ordered : ∀ range ∈ ranges, range.span.start ≤ range.span.stop
  apart : ranges.Pairwise fun range next => range.span.stop ≤ next.span.start

namespace TriviaIndex

/-- The runs that lie in `span`. -/
def in_span (self : TriviaIndex) (span : Span) : List TriviaRange :=
  if span.is_synthetic then []
  else
    let lo := partition_point (fun r => decide (r.span.start < span.start)) self.ranges
    let hi := partition_point (fun r => decide (r.span.stop ≤ span.stop)) self.ranges
    if lo ≥ hi then [] else (self.ranges.take hi).drop lo

/-- Go back from `boundary` over the runs in front of the place `start` that leave no gap. -/
def walk_back (ranges : List TriviaRange) : Nat → Nat → Nat
  | 0, _ => 0
  | start + 1, boundary =>
    match ranges[start]? with
    | none => start + 1
    | some range =>
      if range.span.stop ≠ boundary then start + 1 else walk_back ranges start range.span.start

/-- The runs that lie without a gap in front of `offset`. -/
def before (self : TriviaIndex) (offset : Nat) : List TriviaRange :=
  let stop := partition_point (fun r => decide (r.span.stop ≤ offset)) self.ranges
  (self.ranges.take stop).drop (walk_back self.ranges stop offset)

end TriviaIndex

/-- Whether a run lies in the span. -/
def TriviaRange.within (self : TriviaRange) (span : Span) : Bool :=
  span.start ≤ self.span.start && self.span.stop ≤ span.stop

/-- Whether a run ends by `offset` and every byte from its start to there is in such a run. -/
def TriviaRange.leads (self : TriviaRange) (ranges : List TriviaRange) (offset : Nat) : Bool :=
  self.span.stop ≤ offset &&
    (List.range offset).all fun byte =>
      byte < self.span.start || ranges.any fun range =>
        range.span.stop ≤ offset && range.span.start ≤ byte && byte < range.span.stop

theorem TriviaRange.leads_iff {range : TriviaRange} {ranges : List TriviaRange} {offset : Nat} :
    range.leads ranges offset = true ↔ range.span.stop ≤ offset ∧
      ∀ byte, range.span.start ≤ byte → byte < offset →
        ∃ r ∈ ranges, r.span.stop ≤ offset ∧ r.span.start ≤ byte ∧ byte < r.span.stop := by
  simp only [leads, Bool.and_eq_true, Bool.or_eq_true, List.all_eq_true, List.any_eq_true,
    List.mem_range, decide_eq_true_eq]
  constructor
  · rintro ⟨hstop, hcovered⟩
    refine ⟨hstop, fun byte hbyte hoffset => ?_⟩
    obtain hlt | ⟨r, hr, ⟨hend, hstart⟩, hlast⟩ := hcovered byte hoffset
    · omega
    · exact ⟨r, hr, hend, hstart, hlast⟩
  · rintro ⟨hstop, hcovered⟩
    refine ⟨hstop, fun byte hoffset => ?_⟩
    by_cases hbyte : range.span.start ≤ byte
    · obtain ⟨r, hr, hend, hstart, hlast⟩ := hcovered byte hbyte hoffset
      exact .inr ⟨r, hr, ⟨hend, hstart⟩, hlast⟩
    · exact .inl (by omega)

namespace TriviaIndex

variable (self : TriviaIndex)

theorem starts_sorted : self.ranges.Pairwise fun r next => r.span.start ≤ next.span.start := by
  apply self.apart.imp_of_mem
  intro r next hr _ hapart
  have := self.ordered r hr
  omega

theorem stops_sorted : self.ranges.Pairwise fun r next => r.span.stop ≤ next.span.stop := by
  apply self.apart.imp_of_mem
  intro r next _ hnext hapart
  have := self.ordered next hnext
  omega

theorem starts_partitioned (offset : Nat) :
    Partitioned (fun r : TriviaRange => decide (r.span.start < offset)) self.ranges := by
  apply self.starts_sorted.imp
  intro r next hle hnext
  simp only [decide_eq_true_eq] at hnext ⊢
  omega

theorem stops_partitioned (offset : Nat) :
    Partitioned (fun r : TriviaRange => decide (r.span.stop ≤ offset)) self.ranges := by
  apply self.stops_sorted.imp
  intro r next hle hnext
  simp only [decide_eq_true_eq] at hnext ⊢
  omega

/-- The runs up to a byte are an index too. -/
def up_to (offset : Nat) : TriviaIndex where
  ranges := self.ranges.filter fun r => decide (r.span.stop ≤ offset)
  ordered r hr := self.ordered r (List.mem_of_mem_filter hr)
  apart := self.apart.filter _

theorem in_span_eq_filter (span : Span) :
    self.in_span span = self.ranges.filter fun r => r.within span := by
  unfold in_span
  split
  · next hsynthetic =>
    have hspan : span = Span.SYNTHETIC := by simpa [Span.is_synthetic] using hsynthetic
    symm
    apply List.filter_eq_nil_iff.mpr
    intro r hr hwithin
    have hordered := self.ordered r hr
    simp only [TriviaRange.within, hspan, Span.SYNTHETIC, Bool.and_eq_true,
      decide_eq_true_eq] at hwithin
    omega
  · apply ((self.starts_partitioned span.start).slice (self.stops_partitioned span.stop)).trans
    apply List.filter_congr
    intro r _
    rw [TriviaRange.within, ← decide_not, decide_eq_decide.mpr Nat.not_lt]

end TriviaIndex

/-! ## Runs in front of a token -/

section Leading

variable {ranges : List TriviaRange} {last : TriviaRange}

theorem walk_back_le (ranges : List TriviaRange) (start boundary : Nat) :
    TriviaIndex.walk_back ranges start boundary ≤ start := by
  induction start generalizing boundary with
  | zero => exact Nat.le_refl 0
  | succ start ih =>
    rw [TriviaIndex.walk_back]
    split
    · exact Nat.le_refl _
    · split
      · exact Nat.le_refl _
      · exact Nat.le_succ_of_le (ih _)

/-- The walk sees only what stands in front of it. -/
theorem walk_back_append (more : List TriviaRange) {start : Nat} (hstart : start ≤ ranges.length)
    (boundary : Nat) :
    TriviaIndex.walk_back (ranges ++ more) start boundary =
      TriviaIndex.walk_back ranges start boundary := by
  induction start generalizing boundary with
  | zero => rfl
  | succ start ih =>
    rw [TriviaIndex.walk_back, TriviaIndex.walk_back, List.getElem?_append_left (by omega)]
    split
    · rfl
    · rw [ih (by omega)]

theorem walk_back_last (boundary : Nat) :
    TriviaIndex.walk_back (ranges ++ [last]) (ranges.length + 1) boundary =
      if last.span.stop ≠ boundary then ranges.length + 1
      else TriviaIndex.walk_back ranges ranges.length last.span.start := by
  rw [TriviaIndex.walk_back, List.getElem?_concat_length]
  dsimp only
  rw [walk_back_append [last] (Nat.le_refl _)]

/-- Behind the last run, a byte that is in none separates all of them from what follows. -/
theorem leads_gap {boundary : Nat} (hranges : ∀ r ∈ ranges, r.span.start ≤ r.span.stop)
    (hgap : ∀ r ∈ ranges, r.span.stop < boundary) :
    (ranges.filter fun r => r.leads ranges boundary) = [] := by
  apply List.filter_eq_nil_iff.mpr
  intro r hr hleads
  have hordered := hranges r hr
  have hbefore := hgap r hr
  obtain ⟨q, hq, -, -, hlast⟩ :=
    (TriviaRange.leads_iff.mp hleads).2 (boundary - 1) (by omega) (by omega)
  have := hgap q hq
  omega

/-- A run leads to the end of the last one exactly when it is the last one or leads to its start. -/
theorem leads_last (hlast : last.span.start ≤ last.span.stop)
    (hranges : ∀ r ∈ ranges, r.span.stop ≤ last.span.start) {r : TriviaRange} (hr : r ∈ ranges) :
    r.leads (ranges ++ [last]) last.span.stop = r.leads ranges last.span.start := by
  rw [Bool.eq_iff_iff, TriviaRange.leads_iff, TriviaRange.leads_iff]
  have hstop := hranges r hr
  constructor
  · rintro ⟨-, hcovered⟩
    refine ⟨hstop, fun byte hbyte hoffset => ?_⟩
    obtain ⟨q, hq, hend, hstart, hin⟩ := hcovered byte hbyte (by omega)
    obtain hq | hq := List.mem_append.mp hq
    · exact ⟨q, hq, hranges q hq, hstart, hin⟩
    · rw [List.mem_singleton.mp hq] at hstart
      omega
  · rintro ⟨-, hcovered⟩
    refine ⟨by omega, fun byte hbyte hoffset => ?_⟩
    by_cases hin : byte < last.span.start
    · obtain ⟨q, hq, hend, hstart, hin⟩ := hcovered byte hbyte hin
      exact ⟨q, List.mem_append_left _ hq, by omega, hstart, hin⟩
    · exact ⟨last, List.mem_append_right _ List.mem_cons_self, Nat.le_refl _, by omega, hoffset⟩

/-- The walk from the end of the runs leaves exactly those that lead to `boundary`. -/
theorem drop_walk_back (index : TriviaIndex) {boundary : Nat}
    (hboundary : ∀ r ∈ index.ranges, r.span.stop ≤ boundary) :
    index.ranges.drop (TriviaIndex.walk_back index.ranges index.ranges.length boundary) =
      index.ranges.filter fun r => r.leads index.ranges boundary := by
  obtain ⟨ranges, hordered, hapart⟩ := index
  dsimp only at hboundary ⊢
  induction ranges using List.reverseRecOn generalizing boundary with
  | nil => rfl
  | append_singleton ranges last ih =>
    obtain ⟨hpairs, -, hlast⟩ := List.pairwise_append.mp hapart
    have hbefore : ∀ r ∈ ranges, r.span.stop ≤ last.span.start :=
      fun r hr => hlast r hr last List.mem_cons_self
    have hinner := hordered last (List.mem_append_right _ List.mem_cons_self)
    rw [List.length_append, List.length_singleton, walk_back_last]
    by_cases hstop : last.span.stop = boundary
    · subst hstop
      rw [if_neg (not_not_intro rfl), List.filter_append,
        List.drop_append_of_le_length (walk_back_le _ _ _),
        ih (fun r hr => hordered r (List.mem_append_left _ hr)) hpairs hbefore]
      congr 1
      · exact (List.filter_congr fun r hr => leads_last hinner hbefore hr).symm
      · symm
        apply List.filter_eq_self.mpr
        intro r hr
        rw [List.mem_singleton.mp hr]
        apply TriviaRange.leads_iff.mpr
        refine ⟨Nat.le_refl _, fun byte hbyte hoffset => ?_⟩
        exact ⟨last, List.mem_append_right _ List.mem_cons_self, Nat.le_refl _, hbyte, hoffset⟩
    · have hgap : ∀ r ∈ ranges ++ [last], r.span.stop < boundary := by
        intro r hr
        have hend := hboundary last (List.mem_append_right _ List.mem_cons_self)
        obtain hr | hr := List.mem_append.mp hr
        · have := hbefore r hr
          omega
        · rw [List.mem_singleton.mp hr]
          omega
      rw [if_pos hstop, leads_gap hordered hgap]
      apply List.drop_eq_nil_of_le
      rw [List.length_append, List.length_singleton]

theorem TriviaIndex.before_eq_filter (self : TriviaIndex) (offset : Nat) :
    self.before offset = self.ranges.filter fun r => r.leads self.ranges offset := by
  have hstops := self.stops_partitioned offset
  have htake := hstops.take_partition_point
  have hlength : partition_point (fun r => decide (r.span.stop ≤ offset)) self.ranges =
      (self.up_to offset).ranges.length := hstops.partition_point_eq
  have hwalk : walk_back self.ranges (self.up_to offset).ranges.length offset =
      walk_back (self.up_to offset).ranges (self.up_to offset).ranges.length offset := by
    have hsplit := List.take_append_drop (self.up_to offset).ranges.length self.ranges
    rw [← hlength, htake, hlength] at hsplit
    conv_lhs => rw [← hsplit]
    exact walk_back_append _ (Nat.le_refl _) offset
  have hleads (r : TriviaRange) :
      r.leads (self.up_to offset).ranges offset = r.leads self.ranges offset := by
    rw [Bool.eq_iff_iff, TriviaRange.leads_iff, TriviaRange.leads_iff]
    simp only [up_to, List.mem_filter, decide_eq_true_eq]
    grind
  have hboundary : ∀ r ∈ (self.up_to offset).ranges, r.span.stop ≤ offset :=
    fun r hr => of_decide_eq_true (List.mem_filter.mp hr).2
  unfold before
  dsimp only
  rw [htake, hlength, hwalk]
  show (self.up_to offset).ranges.drop _ = _
  rw [drop_walk_back (self.up_to offset) hboundary]
  simp only [hleads]
  rw [up_to, List.filter_filter]
  apply List.filter_congr
  intro r _
  cases hr : r.leads self.ranges offset with
  | false => rfl
  | true =>
    rw [Bool.true_and]
    exact decide_eq_true (TriviaRange.leads_iff.mp hr).1

end Leading

/-- The trivia that is recorded with the tokens of a source is such an index. -/
def TriviaIndex.of_tokenize (unicode : Unicode) {features : dialect.FeatureSet}
    (hclasses : WholeClasses features) {source : List Char} {tokens : List Token}
    {ranges : List TriviaRange}
    (h : tokenize_with_trivia unicode source features = .ok (tokens, ranges)) : TriviaIndex where
  ranges := ranges
  ordered r hr := by
    have htiles := (tokenize_with_trivia_tiles unicode features hclasses source).2 _ _ h
    have hmem : r.ends ∈ ranges.map TriviaRange.ends := List.mem_map_of_mem hr
    exact (htiles.of_mem (mem_merged.mpr (.inr hmem))).2.1.le
  apart := by
    have htiles := (tokenize_with_trivia_tiles unicode features hclasses source).2 _ _ h
    exact List.pairwise_map.mp (htiles.pairwise.sublist (sublist_merged_right _ _))

end squonk.tokenizer.scan
