/-!
# Texts cut at a delimiter

A delimiter is one element.  `cut` divides at its first occurrence and
`cutLast` at its last; the second component tells whether there was one.
Cutting at every occurrence is `List.splitOn`.
-/

namespace StreamingHttp

namespace Delimited

variable {α : Type} [BEq α]

/-- What precedes the first delimiter, and what follows it if there is one. -/
def cut (delimiter : α) (text : List α) : List α × Option (List α) :=
  (text.takeWhile (· != delimiter), (text.dropWhile (· != delimiter)).tail?)

/-- What precedes the last delimiter, and what follows it if there is one. -/
def cutLast (delimiter : α) (text : List α) : List α × Option (List α) :=
  match cut delimiter text.reverse with
  | (_, none) => (text, none)
  | (after, some before) => (before.reverse, some after.reverse)

end Delimited

end StreamingHttp
