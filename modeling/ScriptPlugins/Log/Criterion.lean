import ScriptPlugins.Log.Expression.Reader

/-!
# Criteria — what a filter may ask the field of a span to be

A criterion is a word, a number, or a regular expression.  There are no spans, so nothing is ever
compared with one; what matters is whether a text is one, since a filter with a text that is none is
no filter.
-/

namespace ScriptPlugins.Log

/-- Whether a text is a number without a sign: digits with a point and an exponent, or one of the
words for what is no finite number. -/
def isUnsignedNumber (cs : List Char) : Bool :=
  let whole := cs.takeWhile Char.isDigit
  let rest := cs.dropWhile Char.isDigit
  let (fraction, rest) :=
    match rest with
    | '.' :: rest => (rest.takeWhile Char.isDigit, rest.dropWhile Char.isDigit)
    | rest => ([], rest)
  let scaled :=
    match rest with
    | [] => true
    | e :: '+' :: ds | e :: '-' :: ds | e :: ds =>
      (e = 'e' || e = 'E') && ds ≠ [] && ds.all Char.isDigit
  (whole ++ fraction ≠ [] && scaled) ||
    String.ofList (cs.map Char.toLower) ∈ ["inf", "infinity", "nan"]

/-- Whether a text is a criterion.  A number may have a plus sign, which begins no expression; any
other number is an expression as well, and so are the words. -/
def isCriterion (cs : List Char) : Bool :=
  (cs.head? = some '+' && isUnsignedNumber cs.tail) ||
    (Expression.ofText? cs).any Expression.isMatchable

end ScriptPlugins.Log
