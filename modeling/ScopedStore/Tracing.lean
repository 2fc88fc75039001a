import ScopedStore.Traced

/-!
# Installing a subscriber

A program installs the subscriber that receives its events at most once, and only when it is
asked to by a filter. A subscriber that is there already is left in place.
-/

namespace ScopedStore

/-- What a program has done so far about a subscriber. -/
structure Tracing where
  attempted : Bool := false
  subscribed : Bool := false
  deriving DecidableEq

namespace Tracing

/-- Installs a subscriber if a filter is given, even an empty one, and none is installed. Only
the first call does anything. -/
def start (t : Tracing) (filter : Option String) : Traced Tracing :=
  if t.attempted then pure t
  else
    match filter with
    | none => pure { t with attempted := true }
    | some _ =>
      if t.subscribed then do
        Traced.emit .subscriberKept
        pure { t with attempted := true }
      else
        pure { attempted := true, subscribed := true }

/-- Every call after the first is without effect. -/
theorem start_of_attempted {t : Tracing} (h : t.attempted = true) (filter : Option String) :
    t.start filter = pure t := by
  simp [start, h]

end Tracing

end ScopedStore
