import StreamingHttp.Bytes

/-!
# Feeding in chunks

A machine which is fed byte strings keeps a state and gives something back for
each of them.  `feedAll` feeds a whole sequence of chunks.

`HandsBack` says that a machine gives back the bytes which it does not take in,
and that two parts may be fed at once.  Such a machine does not see how its input
is cut: what it hands back in all, and the state it ends in, are those of a
single feed.
-/

namespace StreamingHttp

/-- Feeds chunks one by one.  What each feed gives back is listed in order. -/
def feedAll {σ ω : Type} (feed : σ → Bytes → ω × σ) (state : σ) :
    List Bytes → List ω × σ
  | [] => ([], state)
  | chunk :: later =>
      let more := feedAll feed (feed state chunk).2 later
      ((feed state chunk).1 :: more.1, more.2)

/-- A state in which every feed is handed back whole is not left. -/
theorem feedAll_of_forall_eq {σ : Type} {feed : σ → Bytes → Bytes × σ} {state : σ}
    (h : ∀ data, feed state data = (data, state)) (chunks : List Bytes) :
    feedAll feed state chunks = (chunks, state) := by
  induction chunks with
  | nil => rfl
  | cons chunk later ih => simp [feedAll, h, ih]

/-- A machine which hands back what follows the end of its input. -/
structure HandsBack {σ : Type} (feed : σ → Bytes → Bytes × σ)
    (isDone : σ → Bool) : Prop where
  nil : ∀ state, feed state [] = ([], state)
  /-- Nothing is taken in once the machine is done. -/
  done : ∀ state data, isDone state = true → feed state data = (data, state)
  /-- Everything is taken in as long as it is not done. -/
  waiting : ∀ state data, isDone (feed state data).2 = false →
    (feed state data).1 = []
  append : ∀ state first second, feed state (first ++ second) =
    if isDone (feed state first).2 then
      ((feed state first).1 ++ second, (feed state first).2)
    else feed (feed state first).2 second

namespace HandsBack

variable {σ : Type} {feed : σ → Bytes → Bytes × σ} {isDone : σ → Bool}

/-- A machine which is done hands every chunk back. -/
theorem feedAll_of_isDone (machine : HandsBack feed isDone) {state : σ}
    (h : isDone state = true) (chunks : List Bytes) :
    feedAll feed state chunks = (chunks, state) :=
  feedAll_of_forall_eq (fun data => machine.done state data h) chunks

/-- The chunks may be fed at once. -/
theorem feed_flatten (machine : HandsBack feed isDone) (state : σ)
    (chunks : List Bytes) :
    feed state chunks.flatten =
      ((feedAll feed state chunks).1.flatten, (feedAll feed state chunks).2) := by
  induction chunks generalizing state with
  | nil => exact machine.nil state
  | cons chunk later ih =>
      rw [List.flatten_cons, machine.append]
      cases hfirst : isDone (feed state chunk).2 with
      | true =>
          -- The later chunks come back as they are.
          rw [if_pos rfl]
          simp [feedAll, machine.feedAll_of_isDone hfirst]
      | false =>
          rw [if_neg (by simp), ih]
          simp [feedAll, machine.waiting state chunk hfirst]

/-- As long as the machine is not done it hands nothing back. -/
theorem eq_nil_of_mem_feedAll (machine : HandsBack feed isDone) {state : σ}
    {chunks : List Bytes}
    (h : isDone (feedAll feed state chunks).2 = false) :
    ∀ returned ∈ (feedAll feed state chunks).1, returned = [] := by
  induction chunks generalizing state with
  | nil => simp [feedAll]
  | cons chunk later ih =>
      have hfirst : isDone (feed state chunk).2 = false := by
        cases hfirst : isDone (feed state chunk).2 with
        | false => rfl
        | true =>
            rw [feedAll, machine.feedAll_of_isDone hfirst, hfirst] at h
            cases h
      intro returned hmem
      rcases List.mem_cons.mp hmem with rfl | hlater
      · exact machine.waiting state chunk hfirst
      · exact ih h returned hlater

end HandsBack

end StreamingHttp
