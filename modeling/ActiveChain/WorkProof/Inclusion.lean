import ActiveChain.WorkProof.Counting

/-!
# Which events a relation is about

The tree over an epoch repeats the last node of an odd level, so other lists of events have the same
root.  A relation also states the number of events, and with it no path leads outside the list.

* `getElem_of_walk` — a path of the right length from a position inside the list.
-/

namespace ActiveChain

open Function Except List

theorem getElem_pairLevel (node : Digest384 → Digest384 → Digest384) {level : List Digest384}
    {i : Nat} {x : Digest384} (h : level[i]? = some x) : ∃ sibling, (pairLevel node level)[i / 2]? =
      some (if i % 2 = 0 then node x sibling else node sibling x) := by
  fun_induction pairLevel node level generalizing i with
  | case1 => simp at h
  | case2 last =>
    obtain ⟨rfl, rfl⟩ : i = 0 ∧ last = x := by simpa [getElem?_cons] using h
    exact ⟨last, rfl⟩
  | case3 left right rest ih =>
    rcases i with _ | _ | i
    · exact ⟨right, congrArg (fun y => some (node y right)) (Option.some.inj h)⟩
    · exact ⟨left, congrArg (fun y => some (node left y)) (Option.some.inj h)⟩
    · obtain ⟨sibling, hs⟩ := ih h
      refine ⟨sibling, ?_⟩
      rw [show (i + 1 + 1) / 2 = i / 2 + 1 by omega, show (i + 1 + 1) % 2 = i % 2 by omega]
      exact hs

theorem getElem_of_walk {node : Digest384 → Digest384 → Digest384}
    (hnode : Injective2 node) (level : List Digest384) {i : Nat} {x : Digest384}
    {path : List Digest384} (hi : i < level.length) (hlen : path.length = epochDepth level.length)
    (h : (path.foldl (fun (state : Digest384 × Nat) sibling =>
      (if state.2 % 2 = 0 then node state.1 sibling else node sibling state.1, state.2 / 2))
      (x, i)).1 = levelRoot node level) : level[i]? = some x := by
  fun_induction levelRoot node level generalizing i x path with
  | case1 => simp at hi
  | case2 root =>
    rw [length_singleton, epochDepth, if_neg (by decide), length_eq_zero_iff] at hlen
    obtain rfl : i = 0 := by simpa using hi
    subst hlen
    exact congrArg some h.symm
  | case3 left right rest ih =>
    set level := left :: right :: rest
    have hone : 1 < level.length := by simp [level]
    have hhalf := length_pairLevel node level
    rw [epochDepth, if_pos hone, ← hhalf] at hlen
    obtain ⟨sibling, path, rfl⟩ := exists_cons_of_length_eq_add_one hlen
    -- the node above is the one of the next level, and it has one pair of children
    rw [foldl_cons] at h
    have hup := ih (by omega) (Nat.succ.inj hlen) h
    obtain ⟨sibling', hs⟩ := getElem_pairLevel node (getElem?_eq_getElem hi)
    rw [hs, Option.some.injEq] at hup
    rw [getElem?_eq_getElem hi, Option.some.injEq]
    split_ifs at hup
    · exact (hnode hup).1
    · exact (hnode hup).2

section Accepted

variable {C : Crypto} {sha3 : HashFn} {input : WorkClaimRelationInput}

/-- What the loop checks about where an event stands. -/
def Included (sha3 : HashFn) (C : Crypto) (p : WorkClaimPublic) (w : WorkEventWitness) : Prop :=
  w.merkleIndex < p.epochEventCount ∧ w.merklePath.length = epochDepth p.epochEventCount ∧
    includedRoot sha3 (w.event.eventId C) w.merkleIndex w.merklePath = p.epochRoot

/-- The later witness has a later event, at a later index. -/
def WorkEventWitness.Before (w w' : WorkEventWitness) : Prop :=
  w.event.projectSequence < w'.event.projectSequence ∧ w.merkleIndex < w'.merkleIndex

theorem selectEvent_included {s s' : WorkSelection} {w : WorkEventWitness}
    (h : selectEvent C sha3 input s w = .ok s') : Included sha3 C input.claim w ∧
      (∀ n ∈ s.priorSequence, n < w.event.projectSequence) ∧
      (∀ n ∈ s.priorIndex, n < w.merkleIndex) ∧
      s'.priorSequence = some w.event.projectSequence ∧ s'.priorIndex = some w.merkleIndex := by
  simp only [selectEvent, inversion, not_exists, not_and, not_le] at h
  obtain ⟨⟨-, -, -, -, hse, hin, -, -, hco, hle, hro⟩, rfl⟩ := h
  exact ⟨⟨hco, hle, hro⟩, hse, hin, rfl, rfl⟩

theorem selectEvents_included {ws : List WorkEventWitness} {s s' : WorkSelection}
    (h : ws.foldlM (selectEvent C sha3 input) s = .ok s') :
    (∀ w ∈ ws, Included sha3 C input.claim w ∧ (∀ n ∈ s.priorSequence, n < w.event.projectSequence)
      ∧ ∀ n ∈ s.priorIndex, n < w.merkleIndex) ∧ ws.Pairwise WorkEventWitness.Before := by
  induction ws generalizing s with
  | nil => simp
  | cons w ws ih =>
    obtain ⟨s₁, hs, hr⟩ := bind_eq_ok.1 h
    obtain ⟨hin, hse, hix, hse', hix'⟩ := selectEvent_included hs
    obtain ⟨hall, hp⟩ := ih hr
    rw [hse', hix'] at hall
    refine ⟨forall_mem_cons.2 ⟨⟨hin, hse, hix⟩, fun v hv => ?_⟩, pairwise_cons.2 ⟨?_, hp⟩⟩
    · obtain ⟨hv, hsv, hxv⟩ := hall v hv
      exact ⟨hv, fun n hn => (hse n hn).trans (hsv _ rfl), fun n hn => (hix n hn).trans (hxv _ rfl)⟩
    · exact fun v hv => ⟨(hall v hv).2.1 _ rfl, (hall v hv).2.2 _ rfl⟩

theorem eventNodeHash_injective (hash : Injective sha3) :
    Injective2 (eventNodeHash sha3) := by
  intro a b c d h
  simpa using hash h

/-- **Against the root and the count of a list of events, an accepted relation has witness events
that are the events of the list at their indices, and neither an index nor an event occurs
twice.** -/
theorem relation_selects_events (hevent : Injective C.shake256)
    (hash : Injective sha3) {events : List DeveloperEvent}
    (hroot : telemetryMerkleRoot sha3 (events.map (·.eventId C)) = .ok input.claim.epochRoot)
    (hcount : input.claim.epochEventCount = events.length)
    (h : verifyRelation C sha3 input = .ok ()) :
    (∀ w ∈ input.events, events[w.merkleIndex]? = some w.event) ∧
      (input.events.map WorkEventWitness.merkleIndex).Nodup ∧
      (input.events.map WorkEventWitness.event).Nodup := by
  simp only [verifyRelation, inversion] at h
  obtain ⟨-, s, hl, -⟩ := h
  obtain ⟨hall, hp⟩ := selectEvents_included hl
  simp only [telemetryMerkleRoot, inversion] at hroot
  refine ⟨fun w hw => ?_, ?_, ?_⟩
  · obtain ⟨hi, hlen, hw⟩ := (hall w hw).1
    rw [hcount] at hi hlen
    have hleaf := getElem_of_walk (eventNodeHash_injective hash)
      ((events.map (·.eventId C)).map (eventLeafHash sha3)) (by simpa using hi)
      (by simpa using hlen)
      (hw.trans hroot.2.symm)
    rw [getElem?_map, getElem?_map, getElem?_eq_getElem hi] at hleaf
    rw [getElem?_eq_getElem hi]
    have hid : events[w.merkleIndex].eventId C = w.event.eventId C := by
      simpa using hash (Option.some.inj hleaf)
    rw [DeveloperEvent.eventId_inj hevent hid]
  · exact pairwise_map.2 (hp.imp fun hlt => hlt.2.ne)
  · refine pairwise_map.2 (hp.imp fun hlt heq => ?_)
    exact hlt.1.ne (congrArg (·.projectSequence) heq)

end Accepted

namespace TwoSecrets

/-- The event among two others, at the end of an odd level. -/
def events : List DeveloperEvent :=
  [{ event with collectorSequence := 2 }, { event with collectorSequence := 3 }, event]

/-- The claim of the holder of the secret 9 over the three events. -/
def thirdInput (C : Crypto) (sha3 : HashFn) : WorkClaimRelationInput :=
  let leaves := (events.map (·.eventId C)).map (eventLeafHash sha3)
  { input C sha3 9 with
    claim := { claim C sha3 9 with
      epochRoot := levelRoot (eventNodeHash sha3) leaves, epochEventCount := 3 }
    events := [⟨event, 2, [leaves[2]!, eventNodeHash sha3 leaves[0]! leaves[1]!]⟩] }

theorem third_event_selected : let C := Crypto.transparent
    let input := thirdInput C C.shake256
    verifyRelation C C.shake256 input = .ok () ∧ input.events.length = 1 ∧
      ∀ w ∈ input.events, events[w.merkleIndex]? = some w.event := by
  intro C input
  have h : verifyRelation C C.shake256 input = .ok () := by decide +kernel
  exact ⟨h, rfl, (relation_selects_events Crypto.transparent_injective
    Crypto.transparent_injective (by decide +kernel) rfl h).1⟩

end TwoSecrets

end ActiveChain
