/-!
# Scrawl.Random.Source — streams of numbers between zero and one

A source gives one number in `[0, 1)` at a time and the source that is left.  What draws from a
source is written for any source, so that a drawing says which numbers of the stream it uses.
-/

namespace Scrawl

/-- A type of random sources of `α`s. -/
class Source (σ : Type) (α : outParam Type) where
  draw : σ → α × σ

end Scrawl
