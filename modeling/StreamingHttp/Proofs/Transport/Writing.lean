import StreamingHttp.Transport.Sink

/-!
# How writing ends

Writing meets one acceptance after the other.  Each of them lets it go on, having taken
some bytes or none, or refuses it.

* An interrupted write takes nothing and is made again.
* A write which accepts no byte refuses, and so does any other failure.

Writing *breaks off* at the first refusal if bytes are left by then.  Those which were
accepted before it are the first ones of the text, so none is lost, repeated or moved.
A text for which writing does not break off is accepted whole.
-/

namespace StreamingHttp

namespace Transport

namespace Acceptance

/-- How many bytes are accepted at most. -/
def room : Acceptance → Nat
  | .upTo count => count
  | .failure _ => 0

/-- The failure which writing ends with.  None if it goes on. -/
def refusal? : Acceptance → Option Failure
  | .upTo count => if count = 0 then some .nothingWritten else none
  | .failure found => if found.isInterrupted then none else some found

end Acceptance

namespace Sink

/-- How many bytes are accepted in all. -/
def roomOf : List Acceptance → Nat
  | [] => 0
  | acceptance :: later => acceptance.room + roomOf later

/-- Writing so many bytes breaks off with this failure, after `accepted` of them. -/
def BreaksOff (acceptances : List Acceptance) (length accepted : Nat)
    (failure : Failure) : Prop :=
  ∃ before refusing later, acceptances = before ++ refusing :: later ∧
    (∀ acceptance ∈ before, acceptance.refusal? = none) ∧
    refusing.refusal? = some failure ∧ roomOf before = accepted ∧ accepted < length

/-- Writing so many bytes and flushing them fails. -/
def FailsOn (sink : Sink) (length : Nat) (failure : Failure) : Prop :=
  (∃ accepted, BreaksOff sink.acceptances length accepted failure) ∨
    (∀ accepted earlier, ¬ BreaksOff sink.acceptances length accepted earlier) ∧
      sink.flushFailure = some failure

variable {acceptance : Acceptance} {later acceptances : List Acceptance}
  {failure : Failure} {bytes : Bytes} {length accepted : Nat}

/-! ### One write -/

theorem offer_nil (acceptances : List Acceptance) :
    offer acceptances [] = ⟨[], .ok (), acceptances⟩ := by
  cases acceptances <;> rfl

/-- A refusal ends writing. -/
theorem offer_of_refusal (h : acceptance.refusal? = some failure) (hbytes : bytes ≠ []) :
    offer (acceptance :: later) bytes = ⟨[], .error failure, later⟩ := by
  obtain ⟨b, rest, rfl⟩ := List.exists_cons_of_ne_nil hbytes
  cases acceptance with
  | upTo count =>
      rw [Acceptance.refusal?] at h
      split at h
      · next hzero =>
          cases h
          rw [offer, if_pos hzero]
          exact List.cons_ne_nil b rest
      · cases h
  | failure found =>
      rw [Acceptance.refusal?] at h
      split at h
      · cases h
      · next hfound =>
          cases h
          rw [offer, if_neg hfound]
          exact List.cons_ne_nil b rest

/-- Anything else takes the first bytes and goes on with the others. -/
theorem offer_of_accepting (later : List Acceptance) (h : acceptance.refusal? = none)
    (hbytes : bytes ≠ []) :
    (offer (acceptance :: later) bytes).accepted =
        bytes.take acceptance.room ++ (offer later (bytes.drop acceptance.room)).accepted ∧
      (offer (acceptance :: later) bytes).result =
        (offer later (bytes.drop acceptance.room)).result := by
  obtain ⟨b, rest, rfl⟩ := List.exists_cons_of_ne_nil hbytes
  cases acceptance with
  | upTo count =>
      rw [Acceptance.refusal?] at h
      split at h
      · cases h
      · next hpos =>
          rw [offer, if_neg hpos]
          · exact ⟨rfl, rfl⟩
          · exact List.cons_ne_nil b rest
  | failure found =>
      rw [Acceptance.refusal?] at h
      split at h
      · next hfound =>
          rw [offer, if_pos hfound]
          · exact ⟨rfl, rfl⟩
          · exact List.cons_ne_nil b rest
      · cases h

/-! ### All writes -/

theorem BreaksOff.cons (h : BreaksOff later (length - acceptance.room) accepted failure)
    (hgoes : acceptance.refusal? = none) :
    BreaksOff (acceptance :: later) length (acceptance.room + accepted) failure := by
  obtain ⟨before, refusing, behind, rfl, hbefore, hrefusing, rfl, hlength⟩ := h
  refine ⟨acceptance :: before, refusing, behind, rfl, ?_, hrefusing, rfl, by omega⟩
  exact List.forall_mem_cons.mpr ⟨hgoes, hbefore⟩

/-- Writing which breaks off has handed over the first bytes and ends with the failure. -/
theorem BreaksOff.offer (h : BreaksOff acceptances bytes.length accepted failure) :
    (offer acceptances bytes).accepted = bytes.take accepted ∧
      (offer acceptances bytes).result = .error failure := by
  obtain ⟨before, refusing, later, rfl, hbefore, hrefusing, rfl, hlength⟩ := h
  induction before generalizing bytes with
  | nil =>
      have hbytes : bytes ≠ [] := List.length_pos_iff.mp hlength
      rw [List.nil_append, offer_of_refusal hrefusing hbytes]
      exact ⟨rfl, rfl⟩
  | cons acceptance before ih =>
      obtain ⟨hgoes, hbefore⟩ := List.forall_mem_cons.mp hbefore
      have hroom : roomOf (acceptance :: before) = acceptance.room + roomOf before := rfl
      rw [hroom] at hlength ⊢
      have hbytes : bytes ≠ [] := List.length_pos_iff.mp (by omega)
      have hrest : roomOf before < (bytes.drop acceptance.room).length := by
        rw [List.length_drop]
        omega
      obtain ⟨haccepted, hresult⟩ :=
        offer_of_accepting (before ++ refusing :: later) hgoes hbytes
      obtain ⟨hmore, hend⟩ := ih hbefore hrest
      rw [List.cons_append, haccepted, hresult, hmore, hend, List.take_add]
      exact ⟨rfl, rfl⟩

/-- Writing which does not break off hands everything over. -/
theorem offer_of_not_breaksOff
    (h : ∀ accepted failure, ¬ BreaksOff acceptances bytes.length accepted failure) :
    (offer acceptances bytes).accepted = bytes ∧
      (offer acceptances bytes).result = .ok () := by
  induction acceptances generalizing bytes with
  | nil => cases bytes <;> exact ⟨rfl, rfl⟩
  | cons acceptance later ih =>
      by_cases hbytes : bytes = []
      · rw [hbytes, offer_nil]
        exact ⟨rfl, rfl⟩
      · cases hrefusal : acceptance.refusal? with
        | some failure =>
            exact absurd ⟨[], acceptance, later, rfl, by simp, hrefusal, rfl,
              List.length_pos_iff.mpr hbytes⟩ (h 0 failure)
        | none =>
            have hlater : ∀ accepted failure,
                ¬ BreaksOff later (bytes.drop acceptance.room).length accepted failure := by
              intro accepted failure hbreaks
              rw [List.length_drop] at hbreaks
              exact h _ _ (hbreaks.cons hrefusal)
            obtain ⟨haccepted, hresult⟩ := offer_of_accepting later hrefusal hbytes
            obtain ⟨hmore, hend⟩ := ih hlater
            rw [haccepted, hresult, hmore, hend, List.take_append_drop]
            exact ⟨rfl, rfl⟩

variable {sink : Sink}

theorem writeAll_of_breaksOff
    (h : BreaksOff sink.acceptances bytes.length accepted failure) :
    ∃ after, sink.writeAll bytes = .error failure after ∧
      after.written = sink.written ++ bytes.take accepted := by
  obtain ⟨haccepted, hresult⟩ := h.offer
  rw [writeAll]
  simp only [hresult, haccepted]
  exact ⟨_, rfl, rfl⟩

theorem writeAll_of_not_breaksOff
    (h : ∀ accepted failure, ¬ BreaksOff sink.acceptances bytes.length accepted failure) :
    ∃ after, sink.writeAll bytes = .ok () after ∧
      after.written = sink.written ++ bytes ∧ after.flushFailure = sink.flushFailure := by
  obtain ⟨haccepted, hresult⟩ := offer_of_not_breaksOff h
  rw [writeAll]
  simp only [hresult, haccepted]
  exact ⟨_, rfl, rfl, rfl⟩

end Sink

end Transport

end StreamingHttp
