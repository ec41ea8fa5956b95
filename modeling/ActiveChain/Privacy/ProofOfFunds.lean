import ActiveChain.Privacy.PrivateIdentity

/-!
# Proof of funds, and contradictory statements

The single-observation relation of the proof-of-funds guest, and what two accepted inputs of either
private relation can say together.

* `ProofOfFundsPredicate`, `ProofOfFundsPublicInputs` — terms that passed their constructors.
* `witnessSatisfies` — the relation.
* `FundsProvableWith`, `fundsProvable_iff` — **an amount proves exactly the ranges it lies in**,
  whatever evidence the predicate names.
* `Contradiction` — a holder of age at least 18 and at most 17, inside and outside one set, and one
  piece of evidence for two amounts.
-/

namespace ActiveChain

open Function Digest384

/-- As far as the predicate uses it. -/
inductive CredentialValidationError
  | invalidPredicateBinding
deriving DecidableEq, Repr

/-- The errors of the relation and of its public inputs in `ProofOfFundsError`. -/
inductive ProofOfFundsError
  | evidenceMismatch
  | holderMismatch
  | currencyMismatch
  | decimalMismatch
  | institutionMismatch
  | aggregationNotSingleObservation
  | amountOutsideRange
  | staleOrRevoked
deriving DecidableEq, Repr

inductive CredentialAssuranceClass
  | tlsNotarizedEvidence
  | holderSelfIssued
  | issuerUpgraded
  | regulatedAttestation
deriving DecidableEq, Repr

/-- `assurance >= CredentialAssuranceClassV1::IssuerUpgraded`. -/
def CredentialAssuranceClass.AtLeastUpgraded (a : CredentialAssuranceClass) : Prop :=
  a = .issuerUpgraded ∨ a = .regulatedAttestation
deriving Decidable

/-! ## Predicates -/

/-- The arguments of `ProofOfFundsPredicateV1::new`. -/
structure ProofOfFundsTerms where
  evidenceCommitment : Digest384
  schemaId : Digest384
  holderBinding : Digest384
  chainId : ChainId
  audience : PrincipalId
  action : TransactionId
  nonce : Digest384
  currencyCommitment : Digest384
  assetId : Option AssetId
  decimals : Nat
  minimumAmount : Nat
  maximumAmount : Option Nat
  institutionSetCommitment : Digest384
  aggregationRuleCommitment : Digest384
  policyRevision : Nat
  observedFromHeight : Nat
  observedUntilHeight : Nat
  expiresHeight : Nat
deriving DecidableEq

/-- The rejections of `ProofOfFundsPredicateV1::new`, in its order. -/
def ProofOfFundsTerms.Malformed (t : ProofOfFundsTerms) : Prop :=
  (∃ value ∈ [t.evidenceCommitment, t.schemaId, t.holderBinding, t.nonce, t.currencyCommitment,
    t.institutionSetCommitment, t.aggregationRuleCommitment], value = zero) ∨
  t.assetId = some zero ∨
  38 < t.decimals ∨
  t.minimumAmount = 0 ∨
  (∃ maximum ∈ t.maximumAmount, maximum < t.minimumAmount) ∨
  t.policyRevision = 0 ∨
  t.observedFromHeight = 0 ∨
  t.observedUntilHeight < t.observedFromHeight ∨
  t.expiresHeight ≤ t.observedUntilHeight

instance (t : ProofOfFundsTerms) : Decidable t.Malformed := by
  unfold ProofOfFundsTerms.Malformed
  infer_instance

/-- `ProofOfFundsPredicateV1`; heights are `u64`. -/
structure ProofOfFundsPredicate extends ProofOfFundsTerms where
  checked : ¬ toProofOfFundsTerms.Malformed
  expiresHeight_le : expiresHeight ≤ u64Max
deriving DecidableEq

namespace ProofOfFundsPredicate

def new (t : ProofOfFundsTerms) (hexpires : t.expiresHeight ≤ u64Max) :
    Except CredentialValidationError ProofOfFundsPredicate :=
  if h : t.Malformed then .error .invalidPredicateBinding else .ok ⟨t, h, hexpires⟩

theorem new_terms (p : ProofOfFundsPredicate) :
    new p.toProofOfFundsTerms p.expiresHeight_le = .ok p :=
  dif_neg p.checked

def ValidAt (p : ProofOfFundsPredicate) (height : Nat) : Prop :=
  p.observedUntilHeight ≤ height ∧ height < p.expiresHeight
deriving Decidable

end ProofOfFundsPredicate

/-- The arguments of `ProofOfFundsPublicInputsV1::new`. -/
structure ProofOfFundsContext where
  predicate : ProofOfFundsPredicate
  chainGenesis : Digest384
  verifier : PrincipalId
  purposeCommitment : Digest384
  finalizedStatusRoot : Digest384
  assurance : CredentialAssuranceClass
  issuerAuthorizationCommitment : Option Digest384
  finalizedHeight : Nat
deriving DecidableEq

/-- The rejections of `ProofOfFundsPublicInputsV1::new`, in its order. -/
def ProofOfFundsContext.Malformed (p : ProofOfFundsContext) : Prop :=
  (∃ v ∈ [p.chainGenesis, p.purposeCommitment, p.finalizedStatusRoot], v = zero) ∨
  p.verifier = zero ∨
  p.issuerAuthorizationCommitment = some zero ∨
  ¬ (p.assurance.AtLeastUpgraded ↔ p.issuerAuthorizationCommitment.isSome) ∨
  ¬ p.predicate.ValidAt p.finalizedHeight

instance (p : ProofOfFundsContext) : Decidable p.Malformed := by
  unfold ProofOfFundsContext.Malformed
  infer_instance

structure ProofOfFundsPublicInputs extends ProofOfFundsContext where
  checked : ¬ toProofOfFundsContext.Malformed
deriving DecidableEq

def ProofOfFundsPublicInputs.new (p : ProofOfFundsContext) :
    Except ProofOfFundsError ProofOfFundsPublicInputs :=
  if h : p.Malformed then .error .staleOrRevoked else .ok ⟨p, h⟩

theorem ProofOfFundsPublicInputs.new_context (i : ProofOfFundsPublicInputs) :
    new i.toProofOfFundsContext = .ok i :=
  dif_neg i.checked

/-! ## The relation -/

structure ProofOfFundsWitness where
  amountUnits : Nat
  decimals : Nat
  currencyCommitment : Digest384
  institutionSetCommitment : Digest384
  holderBinding : Digest384
  evidenceCommitment : Digest384
  aggregationRuleCommitment : Digest384
  observationCount : Nat
deriving DecidableEq

structure ProofOfFundsRelationInput where
  «public» : ProofOfFundsPublicInputs
  witness : ProofOfFundsWitness
deriving DecidableEq

def witnessSatisfies (p : ProofOfFundsPredicate) (w : ProofOfFundsWitness) :
    Except ProofOfFundsError Unit := do
  rejectIf (w.evidenceCommitment ≠ p.evidenceCommitment) .evidenceMismatch
  rejectIf (w.holderBinding ≠ p.holderBinding) .holderMismatch
  rejectIf (w.currencyCommitment ≠ p.currencyCommitment) .currencyMismatch
  rejectIf (w.decimals ≠ p.decimals) .decimalMismatch
  rejectIf (w.institutionSetCommitment ≠ p.institutionSetCommitment) .institutionMismatch
  rejectIf (w.observationCount ≠ 1 ∨ w.aggregationRuleCommitment ≠ p.aggregationRuleCommitment)
    .aggregationNotSingleObservation
  rejectIf (w.amountUnits < p.minimumAmount ∨ ∃ maximum ∈ p.maximumAmount, maximum < w.amountUnits)
    .amountOutsideRange

theorem witnessSatisfies_eq_ok {p : ProofOfFundsPredicate} {w : ProofOfFundsWitness} :
    witnessSatisfies p w = .ok () ↔
      w = ⟨w.amountUnits, p.decimals, p.currencyCommitment, p.institutionSetCommitment,
        p.holderBinding, p.evidenceCommitment, p.aggregationRuleCommitment, 1⟩ ∧
      p.minimumAmount ≤ w.amountUnits ∧ ∀ maximum ∈ p.maximumAmount, w.amountUnits ≤ maximum := by
  obtain ⟨amount, decimals, currency, institution, holder, evidence, rule, count⟩ := w
  simp only [witnessSatisfies, Except.inversion, ne_eq, not_lt, not_exists,
    not_and, ProofOfFundsWitness.mk.injEq, true_and]
  tauto

/-! ## What can be proved -/

/-- An evidence commitment and a height at which predicates about it can be valid. -/
structure FundsBinding where
  evidenceCommitment : Digest384
  height : Nat
  evidence_ne_zero : evidenceCommitment ≠ zero
  height_ne_zero : height ≠ 0
  height_lt : height < u64Max

/-- The amounts of an inclusive range with an optional end. -/
def InAmountRange (minimum : Nat) (maximum : Option Nat) (amount : Nat) : Prop :=
  minimum ≤ amount ∧ ∀ m ∈ maximum, amount ≤ m

/-- Some accepted input states the range at the height about the evidence, with the given amount in
its witness. -/
def FundsProvableWith (b : FundsBinding) (minimum : Nat) (maximum : Option Nat) (amount : Nat) :
    Prop :=
  ∃ input : ProofOfFundsRelationInput,
    witnessSatisfies input.public.predicate input.witness = .ok () ∧
    input.public.predicate.evidenceCommitment = b.evidenceCommitment ∧
    input.public.finalizedHeight = b.height ∧
    input.public.predicate.minimumAmount = minimum ∧
    input.public.predicate.maximumAmount = maximum ∧ input.witness.amountUnits = amount

namespace FundsBinding

variable (b : FundsBinding) {minimum : Nat} {maximum : Option Nat}

/-- Terms about the evidence that are observed at the height and expire after it, with all other
digests equal to one. -/
def terms (minimum : Nat) (maximum : Option Nat) : ProofOfFundsTerms where
  evidenceCommitment := b.evidenceCommitment
  schemaId := 1
  holderBinding := 1
  chainId := 1
  audience := 1
  action := 1
  nonce := 1
  currencyCommitment := 1
  assetId := none
  decimals := 2
  minimumAmount := minimum
  maximumAmount := maximum
  institutionSetCommitment := 1
  aggregationRuleCommitment := 1
  policyRevision := 1
  observedFromHeight := b.height
  observedUntilHeight := b.height
  expiresHeight := b.height + 1

theorem terms_checked (hmin : minimum ≠ 0) (hmax : ∀ m ∈ maximum, minimum ≤ m) :
    ¬ (b.terms minimum maximum).Malformed := by
  have hone : (1 : Digest384) ≠ zero := Nat.one_ne_zero
  simp only [ProofOfFundsTerms.Malformed, terms, not_or, not_exists, not_and, not_lt,
    List.forall_mem_cons]
  exact ⟨⟨b.evidence_ne_zero, hone, hone, hone, hone, hone, hone, by simp⟩, by simp, by decide,
    hmin, hmax, Nat.one_ne_zero, b.height_ne_zero, le_rfl, by omega⟩

def predicate (hmin : minimum ≠ 0) (hmax : ∀ m ∈ maximum, minimum ≤ m) : ProofOfFundsPredicate :=
  ⟨b.terms minimum maximum, b.terms_checked hmin hmax, b.height_lt⟩

/-- Self-issued evidence at the height. -/
def inputs (minimum : Nat) (maximum : Option Nat) (hmin : minimum ≠ 0)
    (hmax : ∀ m ∈ maximum, minimum ≤ m) : ProofOfFundsPublicInputs where
  predicate := b.predicate hmin hmax
  chainGenesis := 1
  verifier := 1
  purposeCommitment := 1
  finalizedStatusRoot := 1
  assurance := .holderSelfIssued
  issuerAuthorizationCommitment := none
  finalizedHeight := b.height
  checked := by
    have hone : (1 : Digest384) ≠ zero := Nat.one_ne_zero
    simp only [ProofOfFundsContext.Malformed, not_or, not_not, not_exists, not_and,
      List.forall_mem_cons]
    exact ⟨⟨hone, hone, hone, by simp⟩, hone, by simp, by decide, le_rfl, Nat.lt_succ_self _⟩

end FundsBinding

theorem fundsProvable_iff {b : FundsBinding} {minimum amount : Nat} {maximum : Option Nat} :
    FundsProvableWith b minimum maximum amount ↔
      minimum ≠ 0 ∧ InAmountRange minimum maximum amount := by
  constructor
  · rintro ⟨input, hac, -, -, rfl, rfl, rfl⟩
    refine ⟨fun hz => ?_, (witnessSatisfies_eq_ok.1 hac).2⟩
    exact input.public.predicate.checked (.inr (.inr (.inr (.inl hz))))
  · rintro ⟨hmin, hle, hmax⟩
    have hr : ∀ m ∈ maximum, minimum ≤ m := fun m hm => hle.trans (hmax m hm)
    exact ⟨⟨b.inputs minimum maximum hmin hr, ⟨amount, 2, 1, 1, 1, b.evidenceCommitment, 1, 1⟩⟩,
      witnessSatisfies_eq_ok.2 ⟨rfl, hle, hmax⟩, rfl, rfl, rfl, rfl, rfl⟩

/-! ## Contradictory statements -/

section Consistency

variable {C : Crypto}

/-- No two accepted inputs about the holder, with these dates of birth, say that the holder is at
least 18 and at most 17 years old on the date. -/
def AgeConsistent (C : Crypto) (b : IdentityBinding) (date birth birth' : CanonicalDate) : Prop :=
  ¬ (ProvableWith C b (PrivateIdentityStatement.AtLeast 18 date) (·.dateOfBirth = some birth) ∧
    ProvableWith C b (PrivateIdentityStatement.AtMost 17 date) (·.dateOfBirth = some birth'))

/-- No two accepted inputs about the holder, with these codes, say that the holder is resident in
the set and outside it. -/
def ResidenceConsistent (C : Crypto) (b : IdentityBinding) (root : Digest384)
    (code code' : JurisdictionCode) : Prop :=
  ¬ (ProvableWith C b (PrivateIdentityStatement.ResidentIn root) (·.jurisdiction = some code) ∧
    ProvableWith C b (PrivateIdentityStatement.NotResidentIn root) (·.jurisdiction = some code'))

/-- The ranges of two accepted inputs about the evidence, with these amounts, overlap. -/
def AmountConsistent (b : FundsBinding) (amount amount' : Nat) : Prop :=
  ∀ minimum maximum minimum' maximum', FundsProvableWith b minimum maximum amount →
    FundsProvableWith b minimum' maximum' amount' →
    ∃ x, InAmountRange minimum maximum x ∧ InAmountRange minimum' maximum' x

theorem ageConsistent_iff {b : IdentityBinding} {date birth birth' : CanonicalDate} :
    AgeConsistent C b date birth birth' ↔
      ∀ age age', birth.ageAt date = .ok age → birth'.ageAt date = .ok age' →
        age < 18 ∨ age' = 0 ∨ 17 < age' := by
  rw [AgeConsistent, provable_atLeast_iff (by decide), provable_atMost_iff]
  constructor
  · intro h age age' hage hage'
    by_contra hs
    simp only [not_or, not_lt] at hs
    exact h ⟨⟨age, hage, hs.1⟩, age', hage', hs.2.1, hs.2.2⟩
  · rintro h ⟨⟨age, hage, had⟩, age', hage', hz, hm⟩
    have hs := h age age' hage hage'
    omega

theorem residenceConsistent_iff (hash : Injective C.shake256) {b : IdentityBinding}
    {root : Digest384} {code code' : JurisdictionCode} :
    ResidenceConsistent C b root code code' ↔
      ∀ entries, registryRoot C entries = .ok root → root ≠ zero → code ∈ entries →
        code' ∈ entries := by
  rw [ResidenceConsistent, provable_residentIn_iff, provable_notResidentIn_iff]
  constructor
  · intro h entries hr hz hm
    by_contra ho
    exact h ⟨⟨hz, entries, hr, hm⟩, hz, entries, hr, ho⟩
  · rintro h ⟨⟨hz, entries, hr, hm⟩, -, entries', hr', ho⟩
    -- the root commits to one set, so the second witness opened the same entries
    cases registryRoot_inj hash hr hr'
    exact ho (h entries hr hz hm)

theorem amountConsistent_iff {b : FundsBinding} {amount amount' : Nat} :
    AmountConsistent b amount amount' ↔ amount = amount' ∨ amount = 0 ∨ amount' = 0 := by
  constructor
  · intro h
    by_contra hs
    simp only [not_or] at hs
    obtain ⟨hne, hz, hz'⟩ := hs
    -- each amount proves the range that holds nothing else
    have hse : ∀ x : Nat, InAmountRange x (some x) x := fun x => ⟨le_rfl, by simp⟩
    obtain ⟨x, hx, hx'⟩ := h amount (some amount) amount' (some amount')
      (fundsProvable_iff.2 ⟨hz, hse _⟩) (fundsProvable_iff.2 ⟨hz', hse _⟩)
    exact hne ((le_antisymm hx.1 (hx.2 _ rfl)).trans (le_antisymm (hx'.2 _ rfl) hx'.1))
  · intro h minimum maximum minimum' maximum' hp hp'
    obtain ⟨hmin, hr⟩ := fundsProvable_iff.1 hp
    obtain ⟨hmin', hr'⟩ := fundsProvable_iff.1 hp'
    have hle := hr.1
    have hle' := hr'.1
    rcases h with rfl | rfl | rfl
    · exact ⟨amount, hr, hr'⟩
    · omega
    · omega

/-- **When two private values yield no contradictory statements.** The relations do not tie the
value to the issuer, schema and holder, or to the evidence. -/
theorem contradiction_free_iff (hash : Injective C.shake256) :
    (∀ (b : IdentityBinding) (date birth birth' : CanonicalDate),
      AgeConsistent C b date birth birth' ↔
        ∀ age age', birth.ageAt date = .ok age → birth'.ageAt date = .ok age' →
          age < 18 ∨ age' = 0 ∨ 17 < age') ∧
    (∀ (b : IdentityBinding) (root : Digest384) (code code' : JurisdictionCode),
      ResidenceConsistent C b root code code' ↔
        ∀ entries, registryRoot C entries = .ok root → root ≠ zero → code ∈ entries →
          code' ∈ entries) ∧
    ∀ (b : FundsBinding) (amount amount' : Nat),
      AmountConsistent b amount amount' ↔ amount = amount' ∨ amount = 0 ∨ amount' = 0 :=
  ⟨fun _ _ _ _ => ageConsistent_iff, fun _ _ _ _ => residenceConsistent_iff hash,
    fun _ _ _ => amountConsistent_iff⟩

end Consistency

namespace Contradiction

def holder : IdentityBinding := ⟨10, 11, 12, by decide, nofun, nofun⟩

def today : CanonicalDate := ⟨2026, 8, 2, by decide⟩

def birth2000 : CanonicalDate := ⟨2000, 1, 1, by decide⟩

def birth2015 : CanonicalDate := ⟨2015, 1, 1, by decide⟩

theorem age_birth2000 : birth2000.ageAt today = .ok 26 := by decide +kernel

def adult : PrivateIdentityRelationInput where
  «public» := ⟨holder.statement .ageAtLeast (some 18) none (some today) none, by decide⟩
  witness := ⟨some birth2000, none, []⟩

def minor : PrivateIdentityRelationInput where
  «public» := ⟨holder.statement .ageInRange (some 1) (some 17) (some today) none, by decide⟩
  witness := ⟨some birth2015, none, []⟩

def sweden : JurisdictionCode := ⟨0x5345, by decide⟩

def unitedStates : JurisdictionCode := ⟨0x5553, by decide⟩

def nordic : Digest384 := Crypto.transparent.shake256 (registryTranscript [sweden])

theorem residence_checked {kind : PrivateIdentityPredicateKind} (hk : ¬ kind.IsAge)
    (hr : kind ≠ .ageInRange) :
    ¬ (holder.statement kind none none none (some nordic)).Malformed := by
  have hro : nordic ≠ zero := Crypto.transparent_ne_zero (List.cons_ne_nil _ _)
  apply holder.statement_checked <;> simp [hk, hr, hro]

/-- The holder resides in the set, the code being `SE`. -/
def inside : PrivateIdentityRelationInput where
  «public» := ⟨holder.statement .residencyIn none none none (some nordic),
    residence_checked (by decide) (by decide)⟩
  witness := ⟨none, some sweden, [sweden]⟩

/-- The holder resides outside the set, the code being `US`. -/
def outside : PrivateIdentityRelationInput where
  «public» := ⟨holder.statement .residencyNotIn none none none (some nordic),
    residence_checked (by decide) (by decide)⟩
  witness := ⟨none, some unitedStates, [sweden]⟩

def evidence : FundsBinding := ⟨7, 100, by decide, nofun, by decide⟩

def modest : ProofOfFundsRelationInput where
  «public» := evidence.inputs 10000 (some 20000) (by decide) (by decide)
  witness := ⟨15000, 2, 1, 1, 1, 7, 1, 1⟩

def wealthy : ProofOfFundsRelationInput where
  «public» := evidence.inputs 30000 none (by decide) (by decide)
  witness := ⟨40000, 2, 1, 1, 1, 7, 1, 1⟩

def Disjoint (p q : ProofOfFundsPredicate) : Prop :=
  ¬ ∃ x, InAmountRange p.minimumAmount p.maximumAmount x ∧
    InAmountRange q.minimumAmount q.maximumAmount x

/-- **Contradictory statements are accepted** for one issuer, schema and holder, and for one piece
of evidence. -/
theorem both_accepted :
    Injective Crypto.transparent.shake256 ∧
    (verifyPrivateIdentityRelation .transparent adult = .ok () ∧
      verifyPrivateIdentityRelation .transparent minor = .ok () ∧
      adult.public.BoundTo holder ∧ minor.public.BoundTo holder ∧
      adult.public.AtLeast 18 today ∧ minor.public.AtMost 17 today) ∧
    (verifyPrivateIdentityRelation .transparent inside = .ok () ∧
      verifyPrivateIdentityRelation .transparent outside = .ok () ∧
      inside.public.BoundTo holder ∧ outside.public.BoundTo holder ∧
      inside.public.ResidentIn nordic ∧ outside.public.NotResidentIn nordic) ∧
    witnessSatisfies modest.public.predicate modest.witness = .ok () ∧
    witnessSatisfies wealthy.public.predicate wealthy.witness = .ok () ∧
    modest.public.predicate.evidenceCommitment = wealthy.public.predicate.evidenceCommitment ∧
    modest.public.finalizedHeight = wealthy.public.finalizedHeight ∧
    Disjoint modest.public.predicate wealthy.public.predicate := by
  refine ⟨Crypto.transparent_injective,
    ⟨by decide +kernel, by decide +kernel, ⟨rfl, rfl, rfl⟩, ⟨rfl, rfl, rfl⟩,
      ⟨.inl rfl, rfl, 18, rfl, le_rfl⟩, ⟨.inr rfl, rfl, 17, rfl, le_rfl⟩⟩,
    ⟨by decide +kernel, by decide +kernel, ⟨rfl, rfl, rfl⟩, ⟨rfl, rfl, rfl⟩,
      ⟨rfl, rfl⟩, ⟨rfl, rfl⟩⟩,
    rfl, rfl, rfl, rfl, ?_⟩
  · rintro ⟨x, ⟨-, hmax⟩, hmin, -⟩
    have hle : x ≤ 20000 := hmax 20000 rfl
    have hge : 30000 ≤ x := hmin
    omega

/-- The condition separates the values: a date of birth in 2000 contradicts one in 2015, and agrees
with itself. -/
theorem birth2000_contradicts_birth2015 :
    ¬ AgeConsistent .transparent holder today birth2000 birth2015 ∧
    AgeConsistent .transparent holder today birth2000 birth2000 := by
  have hag := (contradiction_free_iff Crypto.transparent_injective).1 holder today
  rw [hag, hag]
  constructor
  · intro h
    exact absurd (h 26 11 age_birth2000 (by decide +kernel)) (by decide)
  · intro age age' hage hage'
    cases age_birth2000.symm.trans hage'
    exact .inr (.inr (by decide))

end Contradiction

end ActiveChain
