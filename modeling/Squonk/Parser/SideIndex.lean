import Squonk.Parser.Method.Marks
import Squonk.Tokenizer.TriviaIndex

/-!
# The side indexes of a parse

The clause marks of a parse as an index that is asked for a span, as its trivia is. Every query of
either index answers what a scan of the whole side table would.
-/

open squonk.document search
open squonk.tokenizer.scan (TriviaIndex TriviaRange)

namespace squonk.parser

open method (ClauseMark)

/-- The clause marks of a source, in its order. -/
structure ClauseMarkIndex where
  marks : List ClauseMark
  sorted : marks.Pairwise fun mark next => mark.offset ≤ next.offset

namespace ClauseMarkIndex

/-- The marks whose keyword stands in `span`. -/
def in_span (self : ClauseMarkIndex) (span : Span) : List ClauseMark :=
  if span.is_synthetic then []
  else
    let lo := partition_point (fun mark => decide (mark.offset < span.start)) self.marks
    let hi := partition_point (fun mark => decide (mark.offset < span.stop)) self.marks
    if lo ≥ hi then [] else (self.marks.take hi).drop lo

/-- The marks of a run whose clauses are indexed are such an index. -/
def of_indexed {marks : List ClauseMark} {clauses : List method.Clause}
    (h : method.Indexed marks clauses) : ClauseMarkIndex where
  marks := marks
  sorted := h.increasing.imp fun hlt => Nat.le_of_lt hlt

theorem partitioned (self : ClauseMarkIndex) (offset : Nat) :
    Partitioned (fun mark : ClauseMark => decide (mark.offset < offset)) self.marks := by
  apply self.sorted.imp
  intro mark next hle hnext
  simp only [decide_eq_true_eq] at hnext ⊢
  omega

end ClauseMarkIndex

/-- Whether the keyword of a mark stands in the span. -/
def method.ClauseMark.within (self : ClauseMark) (span : Span) : Bool :=
  span.start ≤ self.offset && self.offset < span.stop

theorem ClauseMarkIndex.in_span_eq_filter (self : ClauseMarkIndex) (span : Span) :
    self.in_span span = self.marks.filter fun mark => mark.within span := by
  unfold in_span
  split
  · next hsynthetic =>
    have hspan : span = Span.SYNTHETIC := by simpa [Span.is_synthetic] using hsynthetic
    symm
    apply List.filter_eq_nil_iff.mpr
    intro mark _ hwithin
    simp only [ClauseMark.within, hspan, Span.SYNTHETIC, Bool.and_eq_true,
      decide_eq_true_eq] at hwithin
    omega
  · apply ((self.partitioned span.start).slice (self.partitioned span.stop)).trans
    apply List.filter_congr
    intro mark _
    rw [ClauseMark.within, ← decide_not, decide_eq_decide.mpr Nat.not_lt]

/-- A query on the trivia or on the clause marks answers the entries that a scan of the index with
the test for containment would, in their order, whatever the span. -/
theorem span_queries_eq_scan (trivia : TriviaIndex) (marks : ClauseMarkIndex) (span : Span)
    (offset : Nat) :
    trivia.in_span span = trivia.ranges.filter (fun range => range.within span) ∧
      trivia.before offset =
        trivia.ranges.filter (fun range => range.leads trivia.ranges offset) ∧
      marks.in_span span = marks.marks.filter fun mark => mark.within span :=
  ⟨trivia.in_span_eq_filter span, trivia.before_eq_filter offset, marks.in_span_eq_filter span⟩

end squonk.parser
