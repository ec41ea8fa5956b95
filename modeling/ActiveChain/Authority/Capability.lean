import ActiveChain.Accumulator.SetCommitment

/-!
# Capability grants and their attenuation (`protocol-types/authority`, `capability`)

A grant bounds what its holder may do; a delegated grant must be no broader along any dimension.

* `ScopeSelector`, `isSubsetOf` — the byte-wise selector test, and `matchesPrefix_iff`, its meaning.
* `ScopeSelector.isSubsetOf_iff`, `isSubsetOf_trans` — **the test decides inclusion**.
* `verifyAttenuation`, `verifyAttenuation_ok` — the link check, and all it establishes.
-/

namespace ActiveChain

open List

/-! ## Selectors -/

/-- 48 bytes that are compared bit by bit: an object identifier or a data identifier. -/
abbrev Bytes48 := AccumulatorKey

def digestLength : Nat := 48

def byteAt (x : Bytes48) (i : Nat) : BitVec 8 := x.extractLsb' (8 * (digestLength - 1 - i)) 8

def bytesOf (x : Bytes48) : List (BitVec 8) := (List.range digestLength).map (byteAt x)

def matchesPrefix (candidate pre : Bytes48) (bits : Nat) : Bool :=
  let fullBytes := bits / 8
  if digestLength < fullBytes then false
  else if (bytesOf candidate).take fullBytes ≠ (bytesOf pre).take fullBytes then false
  else
    let remainingBits := bits % 8
    if remainingBits = 0 then true
    else if digestLength ≤ fullBytes then false
    else
      let mask := 255#8 <<< (8 - remainingBits)
      byteAt candidate fullBytes &&& mask == byteAt pre fullBytes &&& mask

def isNormalizedPrefix (bytes : Bytes48) (bits : Nat) : Bool :=
  let fullBytes := bits / 8
  let remainingBits := bits % 8
  if remainingBits = 0 then ((bytesOf bytes).drop fullBytes).all (· == 0)
  else
    let unusedMask := (1#8 <<< (8 - remainingBits)) - 1#8
    if byteAt bytes fullBytes &&& unusedMask ≠ 0 then false
    else ((bytesOf bytes).drop (fullBytes + 1)).all (· == 0)

inductive ScopeSelectorError
  | emptyPrefixMustUseAny
  | fullPrefixMustUseExact
  | nonZeroBitsOutsidePrefix
deriving DecidableEq, Repr

inductive ScopeSelector
  | any
  | exact (value : Bytes48)
  | bitPrefix (bytes : Bytes48) (bits : Nat)
deriving DecidableEq

namespace ScopeSelector

def ofPrefix (bytes : Bytes48) (bits : Nat) : Except ScopeSelectorError ScopeSelector := do
  rejectIf (bits = 0) .emptyPrefixMustUseAny
  rejectIf (digestLength * 8 ≤ bits) .fullPrefixMustUseExact
  rejectIf (¬ isNormalizedPrefix bytes bits) .nonZeroBitsOutsidePrefix
  return .bitPrefix bytes bits

def isSubsetOf : ScopeSelector → ScopeSelector → Bool
  | _, .any => true
  | .exact child, .exact parent => child == parent
  | .exact child, .bitPrefix bytes bits => matchesPrefix child bytes bits
  | .bitPrefix child childBits, .bitPrefix parent parentBits =>
    decide (parentBits ≤ childBits) && matchesPrefix child parent parentBits
  | .any, .exact _ | .bitPrefix _ _, .exact _ | .any, .bitPrefix _ _ => false

/-- The selectors that the constructors and the decoder make. -/
def Canonical (s : ScopeSelector) : Prop :=
  ∀ bytes bits, s = .bitPrefix bytes bits → ofPrefix bytes bits = .ok s

/-- An item is matched when the selector of exactly that item is a subset. -/
def Matches (s : ScopeSelector) (item : Bytes48) : Prop := (exact item).isSubsetOf s = true

end ScopeSelector

/-! ## The meaning of the prefix test -/

section Prefix

variable {x y : Bytes48}

theorem getMsbD_byteAt {i j : Nat} (hi : i < digestLength) (hj : j < 8) :
    (byteAt x i).getMsbD j = keyBit x (8 * i + j) := by
  unfold keyBit byteAt
  unfold digestLength at hi ⊢
  have hbit : 8 * i + j < keyBits := by unfold keyBits; omega
  have hin : 8 * (48 - 1 - i) + (8 - 1 - j) = keyBits - 1 - (8 * i + j) := by
    unfold keyBits; omega
  rw [BitVec.getMsbD_eq_getLsbD, BitVec.getMsbD_eq_getLsbD, BitVec.getLsbD_extractLsb', hin]
  simp [hj, hbit, show 8 - 1 - j < 8 by omega]

theorem masked_byte_eq {a b : BitVec 8} {r : Nat} (hr : r < 8) :
    a &&& (255#8 <<< (8 - r)) = b &&& (255#8 <<< (8 - r)) ↔
      ∀ j < r, a.getMsbD j = b.getMsbD j := by
  have hm : ∀ j < 8, (255#8 <<< (8 - r)).getMsbD j = decide (j < r) := by
    decide +revert
  constructor
  · intro h j hj
    have hbit := congrArg (fun v => v.getMsbD j) h
    simpa [hm j (by omega), hj] using hbit
  · intro h
    refine BitVec.eq_of_getMsbD_eq fun j hj => ?_
    rw [BitVec.getMsbD_and, BitVec.getMsbD_and, hm j hj]
    by_cases hlt : j < r
    · rw [h j hlt]
    · simp [hlt]

theorem take_bytesOf_eq {n : Nat} (hn : n ≤ digestLength) :
    (bytesOf x).take n = (bytesOf y).take n ↔ ∀ i < 8 * n, keyBit x i = keyBit y i := by
  rw [bytesOf, bytesOf, ← map_take, ← map_take, take_range, Nat.min_eq_left hn, map_inj_left]
  constructor
  · intro h i hi
    have hb := h (i / 8) (mem_range.2 (by omega))
    have hbit := congrArg (fun v => v.getMsbD (i % 8)) hb
    simp only [getMsbD_byteAt (show i / 8 < digestLength by omega) (Nat.mod_lt i (by omega)),
      Nat.div_add_mod] at hbit
    exact hbit
  · intro h i hi
    have hi : i < n := mem_range.1 hi
    refine BitVec.eq_of_getMsbD_eq fun j hj => ?_
    rw [getMsbD_byteAt (by omega) hj, getMsbD_byteAt (by omega) hj]
    exact h _ (by omega)

theorem matchesPrefix_iff {bits : Nat} :
    matchesPrefix x y bits = true ↔ bits ≤ keyBits ∧ ∀ i < bits, keyBit x i = keyBit y i := by
  have hw : keyBits = 8 * digestLength := rfl
  unfold matchesPrefix
  by_cases ho : digestLength < bits / 8
  · rw [if_pos ho]
    exact ⟨fun h => absurd h (by decide), fun h => absurd h.1 (by omega)⟩
  rw [if_neg ho]
  by_cases hf : (bytesOf x).take (bits / 8) = (bytesOf y).take (bits / 8)
  swap
  · rw [if_pos hf, take_bytesOf_eq (Nat.le_of_not_lt ho)] at *
    refine ⟨fun h => absurd h (by decide), fun h => absurd (fun i hi => h.2 i (by omega)) hf⟩
  rw [if_neg (not_not.2 hf)]
  rw [take_bytesOf_eq (Nat.le_of_not_lt ho)] at hf
  by_cases hr : bits % 8 = 0
  · rw [if_pos hr]
    exact ⟨fun _ => ⟨by omega, fun i hi => hf i (by omega)⟩, fun _ => rfl⟩
  rw [if_neg hr]
  by_cases hl : digestLength ≤ bits / 8
  · rw [if_pos hl]
    exact ⟨fun h => absurd h (by decide), fun h => absurd h.1 (by omega)⟩
  rw [if_neg hl, beq_iff_eq, masked_byte_eq (Nat.mod_lt bits (by omega))]
  have hb : bits / 8 < digestLength := Nat.lt_of_not_le hl
  constructor
  · intro h
    refine ⟨by omega, fun i hi => ?_⟩
    by_cases hi' : i < 8 * (bits / 8)
    · exact hf i hi'
    · have hj := h (i - 8 * (bits / 8)) (by omega)
      rw [getMsbD_byteAt hb (by omega), getMsbD_byteAt hb (by omega)] at hj
      rwa [show 8 * (bits / 8) + (i - 8 * (bits / 8)) = i by omega] at hj
  · intro h j hj
    rw [getMsbD_byteAt hb (by omega), getMsbD_byteAt hb (by omega)]
    exact h.2 _ (by omega)

end Prefix

/-! ## Selector inclusion -/

namespace ScopeSelector

theorem canonical_bits {bytes : Bytes48} {bits : Nat} (h : (bitPrefix bytes bits).Canonical) :
    0 < bits ∧ bits < keyBits := by
  have hok := h bytes bits rfl
  simp only [ofPrefix, Except.inversion] at hok
  have hw : keyBits = digestLength * 8 := rfl
  omega

theorem isSubsetOf_self_exact (item : Bytes48) : (exact item).isSubsetOf (.exact item) = true :=
  beq_self_eq_true item

theorem isSubsetOf_trans {a b c : ScopeSelector} (hab : a.isSubsetOf b = true)
    (hbc : b.isSubsetOf c = true) : a.isSubsetOf c = true := by
  cases c with
  | any => cases a <;> rfl
  | exact z =>
    cases b with
    | exact y =>
      cases a with
      | exact x =>
        simp only [isSubsetOf, beq_iff_eq] at hab hbc ⊢
        exact hab.trans hbc
      | _ => cases hab
    | _ => cases hbc
  | bitPrefix z zBits =>
    cases b with
    | any => cases hbc
    | exact y =>
      cases a with
      | exact x =>
        simp only [isSubsetOf, beq_iff_eq] at hab
        exact hab ▸ hbc
      | _ => cases hab
    | bitPrefix y yBits =>
      simp only [isSubsetOf, Bool.and_eq_true, decide_eq_true_eq, matchesPrefix_iff] at hbc
      obtain ⟨hle, hw, hyz⟩ := hbc
      cases a with
      | any => cases hab
      | exact x =>
        simp only [isSubsetOf, matchesPrefix_iff] at hab ⊢
        exact ⟨hw, fun i hi => (hab.2 i (by omega)).trans (hyz i hi)⟩
      | bitPrefix x xBits =>
        simp only [isSubsetOf, Bool.and_eq_true, decide_eq_true_eq, matchesPrefix_iff]
          at hab ⊢
        obtain ⟨hle', -, hxy⟩ := hab
        exact ⟨by omega, hw, fun i hi => (hxy i (by omega)).trans (hyz i hi)⟩

theorem matches_bitPrefix {bytes item : Bytes48} {bits : Nat} :
    (bitPrefix bytes bits).Matches item ↔
      bits ≤ keyBits ∧ ∀ i < bits, keyBit item i = keyBit bytes i := matchesPrefix_iff

theorem matches_exact {value item : Bytes48} : (exact value).Matches item ↔ item = value :=
  beq_iff_eq

theorem matches_toggle {bytes : Bytes48} {bits d : Nat} (hd : d < keyBits) (h : bits ≤ d) :
    (bitPrefix bytes bits).Matches (toggleKeyBit bytes d) := by
  refine matches_bitPrefix.2 ⟨by omega, fun i hi => ?_⟩
  rw [keyBit_toggle hd, decide_eq_false (by omega), Bool.xor_false]

theorem toggle_keyBit_ne {x : Bytes48} {d : Nat} (hd : d < keyBits) :
    keyBit (toggleKeyBit x d) d ≠ keyBit x d := by
  rw [keyBit_toggle hd, decide_eq_true rfl, Bool.xor_true]
  cases keyBit x d <;> decide

theorem isSubsetOf_iff {child parent : ScopeSelector} (hc : child.Canonical)
    (hp : parent.Canonical) :
    child.isSubsetOf parent = true ↔ ∀ item, child.Matches item → parent.Matches item := by
  refine ⟨fun h item hitem => isSubsetOf_trans hitem h, fun h => ?_⟩
  have hf : 0 < keyBits := by decide
  cases parent with
  | any => cases child <;> rfl
  | exact p =>
    cases child with
    | any =>
      have hitem := matches_exact.1 (h (toggleKeyBit p 0) rfl)
      exact absurd (congrArg (keyBit · 0) hitem) (toggle_keyBit_ne hf)
    | exact c => exact h c (isSubsetOf_self_exact c)
    | bitPrefix c bits =>
      -- the bits below the prefix are free: two items, one of them not `p`
      have hb := canonical_bits hc
      have hl : keyBits - 1 < keyBits := by omega
      have hs := h c (matches_bitPrefix.2 ⟨by omega, fun _ _ => rfl⟩)
      have ho := h _ (matches_toggle hl (by omega))
      have heq := (matches_exact.1 ho).trans (matches_exact.1 hs).symm
      exact absurd (congrArg (keyBit · (keyBits - 1)) heq) (toggle_keyBit_ne hl)
  | bitPrefix p pBits =>
    have hpB := canonical_bits hp
    cases child with
    | any =>
      have hitem := (matches_bitPrefix.1 (h (toggleKeyBit p 0) rfl)).2 0 hpB.1
      exact absurd hitem (toggle_keyBit_ne hf)
    | exact c => exact h c (isSubsetOf_self_exact c)
    | bitPrefix c cBits =>
      have hcB := canonical_bits hc
      have hs := h c (matches_bitPrefix.2 ⟨by omega, fun _ _ => rfl⟩)
      have hlo : pBits ≤ cBits := by
        by_contra hsh
        have ho := h _ (matches_toggle hcB.2 (Nat.le_refl cBits))
        have hbit := (matches_bitPrefix.1 ho).2 cBits (by omega)
        have hbit' := (matches_bitPrefix.1 hs).2 cBits (by omega)
        exact toggle_keyBit_ne hcB.2 (hbit.trans hbit'.symm)
      simp only [isSubsetOf, Bool.and_eq_true, decide_eq_true_eq]
      exact ⟨hlo, hs⟩

end ScopeSelector

/-! ## Grants -/

abbrev ObjectId := Bytes48

abbrev CapabilityId := Digest384

abbrev ActionId := Digest384

/-- A selector that only the constructors make. -/
structure ResourceSelector where
  scope : ScopeSelector
  canonical : scope.Canonical
deriving DecidableEq

structure DataSelector where
  scope : ScopeSelector
  canonical : scope.Canonical
deriving DecidableEq

def ResourceSelector.exact (object : ObjectId) : ResourceSelector :=
  ⟨.exact object, fun _ _ h => by cases h⟩

def ResourceSelector.isSubsetOf (child parent : ResourceSelector) : Bool :=
  child.scope.isSubsetOf parent.scope

def DataSelector.exact (identifier : Bytes48) : DataSelector :=
  ⟨.exact identifier, fun _ _ h => by cases h⟩

def DataSelector.isSubsetOf (child parent : DataSelector) : Bool :=
  child.scope.isSubsetOf parent.scope

inductive HolderBinding
  | principal (holder : PrincipalId)
  | hidden (commitment : Digest384)
  | bearer
deriving DecidableEq

def HolderBinding.principal? : HolderBinding → Option PrincipalId
  | .principal holder => some holder
  | _ => none

def maxCapabilityActions : Nat := 32

structure BoundedActionSet where
  actions : List ActionId
  nonempty : actions ≠ []
  bounded : actions.length ≤ maxCapabilityActions
  ordered : actions.Pairwise (· < ·)
deriving DecidableEq

/-- Binary search in a strictly ordered list is membership. -/
def BoundedActionSet.isSubsetOf (child parent : BoundedActionSet) : Bool :=
  child.actions.all fun action => parent.actions.contains action

structure RateLimit where
  maximumUses : Nat
  windowBlocks : Nat
  uses_pos : 0 < maximumUses
  window_pos : 0 < windowBlocks
deriving DecidableEq

structure CapabilityGrantFields where
  capabilityId : CapabilityId
  issuer : PrincipalId
  holderBinding : HolderBinding
  parentCapability : Option CapabilityId
  permittedActions : BoundedActionSet
  resourceScope : ResourceSelector
  dataScope : DataSelector
  monetaryLimit : Option Nat
  computeLimit : Option Nat
  rateLimit : Option RateLimit
  useLimit : Option Nat
  validFrom : Nat
  validUntil : Option Nat
  delegationDepthRemaining : Nat
  delegationAllowed : Bool
  revocationRegistry : Option ObjectId
  constraintHash : Digest384
deriving DecidableEq

/-- With the checks of `CapabilityGrant::new`. -/
structure CapabilityGrant where
  fields : CapabilityGrantFields
  issuerSignature : ProtocolSignature
  not_self_parent : fields.parentCapability ≠ some fields.capabilityId
  valid_until_after : ∀ height ∈ fields.validUntil, fields.validFrom ≤ height
  depth_of_allowed : fields.delegationAllowed = true → fields.delegationDepthRemaining ≠ 0
  depth_of_forbidden : fields.delegationAllowed = false → fields.delegationDepthRemaining = 0

/-! ## Attenuation -/

inductive AttenuationError
  | parentDelegationForbidden
  | parentReferenceMismatch
  | unsupportedParentHolderBinding
  | issuerIsNotParentHolder
  | bearerChildForbidden
  | actionsBroadened
  | resourceScopeBroadened
  | dataScopeBroadened
  | monetaryLimitBroadened
  | computeLimitBroadened
  | rateLimitBroadened
  | useLimitBroadened
  | validityStartsEarlier
  | validityEndsLater
  | delegationDepthNotReduced
  | constraintNotInherited
  | revocationRegistryNotInherited
deriving DecidableEq, Repr

def optionalLimitIsAttenuated (parent child : Option Nat) : Bool :=
  match parent with
  | none => true
  | some parent => child.any fun child => decide (child ≤ parent)

def optionalEndIsAttenuated (parent child : Option Nat) : Bool :=
  optionalLimitIsAttenuated parent child

def rateLimitIsAttenuated (parent child : Option RateLimit) : Bool :=
  match parent with
  | none => true
  | some parent => child.any fun child =>
    child.windowBlocks == parent.windowBlocks && decide (child.maximumUses ≤ parent.maximumUses)

def revocationRegistryIsAttenuated (parent child : Option ObjectId) : Bool :=
  match parent with
  | none => true
  | some parent => child == some parent

def verifyAttenuation (parentGrant childGrant : CapabilityGrant) :
    Except AttenuationError Unit := do
  let parent := parentGrant.fields
  let child := childGrant.fields
  rejectIf (¬ parent.delegationAllowed) .parentDelegationForbidden
  rejectIf (child.parentCapability ≠ some parent.capabilityId) .parentReferenceMismatch
  let parentHolder ← okOr parent.holderBinding.principal? .unsupportedParentHolderBinding
  rejectIf (child.issuer ≠ parentHolder) .issuerIsNotParentHolder
  rejectIf (child.holderBinding = .bearer) .bearerChildForbidden
  rejectIf (¬ child.permittedActions.isSubsetOf parent.permittedActions) .actionsBroadened
  rejectIf (¬ child.resourceScope.isSubsetOf parent.resourceScope) .resourceScopeBroadened
  rejectIf (¬ child.dataScope.isSubsetOf parent.dataScope) .dataScopeBroadened
  rejectIf (¬ optionalLimitIsAttenuated parent.monetaryLimit child.monetaryLimit)
    .monetaryLimitBroadened
  rejectIf (¬ optionalLimitIsAttenuated parent.computeLimit child.computeLimit)
    .computeLimitBroadened
  rejectIf (¬ rateLimitIsAttenuated parent.rateLimit child.rateLimit) .rateLimitBroadened
  rejectIf (¬ optionalLimitIsAttenuated parent.useLimit child.useLimit) .useLimitBroadened
  rejectIf (child.validFrom < parent.validFrom) .validityStartsEarlier
  rejectIf (¬ optionalEndIsAttenuated parent.validUntil child.validUntil) .validityEndsLater
  rejectIf (parent.delegationDepthRemaining ≤ child.delegationDepthRemaining)
    .delegationDepthNotReduced
  rejectIf (child.constraintHash ≠ parent.constraintHash) .constraintNotInherited
  rejectIf (¬ revocationRegistryIsAttenuated parent.revocationRegistry child.revocationRegistry)
    .revocationRegistryNotInherited

theorem le_of_limitAttenuated {parent child : Option Nat} {amount : Nat}
    (h : optionalLimitIsAttenuated parent child = true) (hc : ∀ limit ∈ child, amount ≤ limit) :
    ∀ limit ∈ parent, amount ≤ limit := by
  rintro limit rfl
  cases child with
  | none => cases h
  | some bound =>
    have hle : bound ≤ limit := of_decide_eq_true h
    exact (hc bound rfl).trans hle

/-! ## Requests -/

/-- What a holder asks for: the action, what it touches, when, and how much.  `uses` counts this use
too, and so does `windowUses` for a window of the given length. -/
structure CapabilityRequest where
  action : ActionId
  resource : ObjectId
  data : Bytes48
  height : Nat
  value : Nat
  compute : Nat
  uses : Nat
  windowUses : Nat → Nat

/-- The requests within all bounds of a grant. -/
structure CapabilityGrantFields.Admits (c : CapabilityGrantFields) (r : CapabilityRequest) :
    Prop where
  action : r.action ∈ c.permittedActions.actions
  resource : (ResourceSelector.exact r.resource).isSubsetOf c.resourceScope = true
  data : (DataSelector.exact r.data).isSubsetOf c.dataScope = true
  started : c.validFrom ≤ r.height
  not_ended : ∀ last ∈ c.validUntil, r.height ≤ last
  value : ∀ limit ∈ c.monetaryLimit, r.value ≤ limit
  compute : ∀ limit ∈ c.computeLimit, r.compute ≤ limit
  uses : ∀ limit ∈ c.useLimit, r.uses ≤ limit
  rate : ∀ limit ∈ c.rateLimit, r.windowUses limit.windowBlocks ≤ limit.maximumUses

theorem verifyAttenuation_ok {parent child : CapabilityGrant}
    (h : verifyAttenuation parent child = .ok ()) :
    (∀ r, child.fields.Admits r → parent.fields.Admits r) ∧
      child.fields.delegationDepthRemaining < parent.fields.delegationDepthRemaining := by
  simp only [verifyAttenuation, Except.inversion] at h
  obtain ⟨-, -, holder, -, -, -, hac, hre, hda, hv, hco, hra, hus, hf, hu, hd, -, -⟩ := h
  refine ⟨fun r hr => ?_, Nat.lt_of_not_le hd⟩
  have hact : r.action ∈ parent.fields.permittedActions.actions := by
    have hall := all_eq_true.1 hac r.action hr.action
    exact contains_iff_mem.1 hall
  refine ⟨hact, ScopeSelector.isSubsetOf_trans hr.resource hre,
    ScopeSelector.isSubsetOf_trans hr.data hda, (Nat.le_of_not_lt hf).trans hr.started,
    le_of_limitAttenuated hu hr.not_ended, le_of_limitAttenuated hv hr.value,
    le_of_limitAttenuated hco hr.compute, le_of_limitAttenuated hus hr.uses, ?_⟩
  intro limit hl
  cases hc : child.fields.rateLimit with
  | none =>
    rw [hl, hc] at hra
    cases hra
  | some bound =>
    rw [hl, hc] at hra
    simp only [rateLimitIsAttenuated, Option.any_some, Bool.and_eq_true, beq_iff_eq,
      decide_eq_true_eq] at hra
    exact hra.1 ▸ (hr.rate bound hc).trans hra.2

end ActiveChain
