import ActiveChain.Cash.Types
import ActiveChain.Lib.Fault

/-!
# Private age and jurisdiction predicates

The relation of the private-identity guest: a public statement about a holder, and a private witness
that makes it true.

* `CanonicalDate`, `JurisdictionCode` — dates and country codes that passed their constructor.
* `verifyPrivateIdentityRelation` — the relation; `verify_not_panics` says that it never panics.
* `provable_atLeast_iff`, `provable_atMost_iff`, `provable_residentIn_iff`,
  `provable_notResidentIn_iff` — **what can be proved with a value depends on the value alone.**
-/

namespace ActiveChain

open Digest384 Except Option

/-- `PrivateIdentityError`; `Expired`, `Replay` and `MalformedProof` belong to the callers. -/
inductive PrivateIdentityError
  | invalidDate
  | invalidJurisdiction
  | invalidPublicInput
  | invalidWitness
  | registryNotCanonical
  | registryRootMismatch
  | predicateFalse
deriving DecidableEq, Repr

/-! ## Dates -/

def isLeap (year : Nat) : Prop := year % 4 = 0 ∧ (year % 100 ≠ 0 ∨ year % 400 = 0)
deriving Decidable

/-- The number of days of a month, zero when there is no such month. -/
def daysOf (year : Nat) : Nat → Nat
  | 1 | 3 | 5 | 7 | 8 | 10 | 12 => 31
  | 4 | 6 | 9 | 11 => 30
  | 2 => if isLeap year then 29 else 28
  | _ => 0

structure CanonicalDate where
  year : Nat
  month : Nat
  day : Nat
  checked : ¬ (year < 1900 ∨ day = 0 ∨ daysOf year month < day)
deriving DecidableEq

/-- The message of an unsigned subtraction below zero. -/
def subtractOverflow : String := "attempt to subtract with overflow"

namespace CanonicalDate

def new (year month day : Nat) : Except PrivateIdentityError CanonicalDate :=
  if h : year < 1900 ∨ day = 0 ∨ daysOf year month < day then .error .invalidDate
  else .ok ⟨year, month, day, h⟩

/-- The type holds what the constructor lets through. -/
theorem new_fields (d : CanonicalDate) : new d.year d.month d.day = .ok d := dif_neg d.checked

/-- `(a.month, a.day) < (b.month, b.day)`. -/
def EarlierInYear (a b : CanonicalDate) : Prop :=
  a.month < b.month ∨ a.month = b.month ∧ a.day < b.day
deriving Decidable

/-- The derived order of `CanonicalDateV1`. -/
def Earlier (a b : CanonicalDate) : Prop :=
  a.year < b.year ∨ a.year = b.year ∧ a.EarlierInYear b
deriving Decidable

def ageAt (birth reference : CanonicalDate) : Except (Fault PrivateIdentityError) Nat := do
  rejectIf (reference.Earlier birth) (.error .invalidDate)
  let years ← expectOk (okOr (checkedSub reference.year birth.year) ()) subtractOverflow
  expectOk (okOr (checkedSub years (if reference.EarlierInYear birth then 1 else 0)) ())
    subtractOverflow

/-- The order of the dates keeps both subtractions above zero. -/
theorem ageAt_not_panics (birth reference : CanonicalDate) : ¬ (birth.ageAt reference).Panics := by
  by_cases h : reference.Earlier birth
  · simp [ageAt, rejectIf, h, Except.Panics, Bind.bind, Except.bind]
  have hdates := h
  unfold Earlier EarlierInYear at hdates
  have hyears : birth.year ≤ reference.year := by omega
  have hmonths : (if reference.EarlierInYear birth then 1 else 0) ≤
      reference.year - birth.year := by
    split_ifs with hearlier
    · unfold EarlierInYear at hearlier
      omega
    · exact Nat.zero_le _
  rw [ageAt, rejectIf_of_not h, ok_bind, checkedSub_eq_some.2 ⟨rfl, hyears⟩,
    expectOk_eq_ok.2 (okOr_some _ _), ok_bind, checkedSub_eq_some.2 ⟨rfl, hmonths⟩]
  exact not_panics_ok _

end CanonicalDate

/-! ## Jurisdictions -/

def isAsciiUppercase (byte : Nat) : Prop := 65 ≤ byte ∧ byte ≤ 90
deriving Decidable

/-- `JurisdictionCodeV1`: two bytes, read as one big-endian number. -/
@[ext] structure JurisdictionCode where
  bytes : Nat
  checked : isAsciiUppercase (bytes / 256) ∧ isAsciiUppercase (bytes % 256)
deriving DecidableEq

def JurisdictionCode.new (bytes : Nat) : Except PrivateIdentityError JurisdictionCode :=
  if h : isAsciiUppercase (bytes / 256) ∧ isAsciiUppercase (bytes % 256) then .ok ⟨bytes, h⟩
  else .error .invalidJurisdiction

theorem JurisdictionCode.new_bytes (code : JurisdictionCode) : new code.bytes = .ok code :=
  dif_pos code.checked

def maxJurisdictionSet : Nat := 64

/-- The check of `registry_root`: a bounded set in strictly increasing order. -/
def CanonicalRegistry (entries : List JurisdictionCode) : Prop :=
  ¬ (entries = [] ∨ maxJurisdictionSet < entries.length ∨
    ¬ entries.Pairwise fun a b => a.bytes < b.bytes)
deriving Decidable

/-- The bytes that `registry_root` hashes. -/
def registryTranscript (entries : List JurisdictionCode) : Transcript :=
  .tag "ACTIVECHAIN-JURISDICTION-SET-V1" :: entries.map fun code => .u16 code.bytes

def registryRoot (C : Crypto) (entries : List JurisdictionCode) :
    Except PrivateIdentityError Digest384 := do
  rejectIf (¬ CanonicalRegistry entries) .registryNotCanonical
  return C.shake256 (registryTranscript entries)

variable {C : Crypto} {root : Digest384}

theorem registryRoot_eq_ok {es : List JurisdictionCode} :
    registryRoot C es = .ok root ↔
      CanonicalRegistry es ∧ C.shake256 (registryTranscript es) = root := by
  simp only [registryRoot, inversion]

theorem registryTranscript_injective : Function.Injective registryTranscript := by
  intro es entries' h
  refine List.map_injective_iff.2 ?_ (List.cons.inj h).2
  intro a b hab
  injection hab with _ hb
  exact JurisdictionCode.ext hb

/-- **A root commits to its set.** -/
theorem registryRoot_inj (hash : Function.Injective C.shake256)
    {es entries' : List JurisdictionCode} (h : registryRoot C es = .ok root)
    (h' : registryRoot C entries' = .ok root) : es = entries' := by
  obtain ⟨-, hr⟩ := registryRoot_eq_ok.1 h
  obtain ⟨-, hr'⟩ := registryRoot_eq_ok.1 h'
  exact registryTranscript_injective (hash (hr.trans hr'.symm))

/-! ## Statements -/

inductive PrivateIdentityPredicateKind
  | ageAtLeast
  | ageInRange
  | residencyIn
  | residencyNotIn
  | nationalityIn
  | jurisdictionNotIn
deriving DecidableEq, Repr

def PrivateIdentityPredicateKind.IsAge (kind : PrivateIdentityPredicateKind) : Prop :=
  kind = .ageAtLeast ∨ kind = .ageInRange
deriving Decidable

def maxPrivateIdentityConjunctions : Nat := 3

/-- The arguments of `PrivateIdentityPublicInputsV1::new`. -/
structure PrivateIdentityStatement where
  kind : PrivateIdentityPredicateKind
  minimumAge : Option Nat
  maximumAge : Option Nat
  referenceDate : Option CanonicalDate
  jurisdictionSetRoot : Option Digest384
  registryRevision : Option Nat
  chain : ChainId
  chainGenesis : Digest384
  asset : Option AssetId
  action : TransactionId
  audience : PrincipalId
  verifier : PrincipalId
  purpose : Digest384
  policyRevision : Nat
  nonce : Digest384
  expiresHeight : Nat
  finalizedHeight : Nat
  statusRoot : Digest384
  issuer : PrincipalId
  schema : Digest384
  holderBinding : Digest384
  linkabilityScope : Digest384
  conjunctionCount : Nat
deriving DecidableEq

/-- The rejections of `PrivateIdentityPublicInputsV1::new`, in its order. -/
def PrivateIdentityStatement.Malformed (p : PrivateIdentityStatement) : Prop :=
  ¬ (p.kind.IsAge ↔ p.referenceDate.isSome) ∨
  ¬ (p.kind.IsAge ↔ p.minimumAge.isSome) ∨
  ¬ (p.kind = .ageInRange ↔ p.maximumAge.isSome) ∨
  p.minimumAge = some 0 ∨
  (∃ m ∈ p.maximumAge, m < p.minimumAge.getD 0) ∨
  (p.kind.IsAge ↔ p.jurisdictionSetRoot.isSome) ∨
  (p.kind.IsAge ↔ p.registryRevision.isSome) ∨
  p.jurisdictionSetRoot = some zero ∨
  p.registryRevision = some 0 ∨
  (∃ v ∈ [p.chainGenesis, p.purpose, p.nonce, p.statusRoot, p.schema, p.holderBinding,
    p.linkabilityScope], v = zero) ∨
  p.audience = zero ∨
  p.verifier = zero ∨
  p.issuer = zero ∨
  p.asset = some zero ∨
  p.policyRevision = 0 ∨
  p.finalizedHeight = 0 ∨
  p.expiresHeight ≤ p.finalizedHeight ∨
  p.conjunctionCount = 0 ∨
  maxPrivateIdentityConjunctions < p.conjunctionCount

instance (p : PrivateIdentityStatement) : Decidable p.Malformed := by
  unfold PrivateIdentityStatement.Malformed
  infer_instance

/-- `PrivateIdentityPublicInputsV1`: a statement that its constructor accepted.  The decoder of the
guest builds statements with the constructor too. -/
structure PrivateIdentityPublicInputs extends PrivateIdentityStatement where
  checked : ¬ toPrivateIdentityStatement.Malformed
deriving DecidableEq

def PrivateIdentityPublicInputs.new (p : PrivateIdentityStatement) :
    Except PrivateIdentityError PrivateIdentityPublicInputs :=
  if h : p.Malformed then .error .invalidPublicInput else .ok ⟨p, h⟩

theorem PrivateIdentityPublicInputs.new_statement (i : PrivateIdentityPublicInputs) :
    new i.toPrivateIdentityStatement = .ok i :=
  dif_neg i.checked

structure PrivateIdentityWitness where
  dateOfBirth : Option CanonicalDate
  jurisdiction : Option JurisdictionCode
  registryEntries : List JurisdictionCode
deriving DecidableEq

structure PrivateIdentityRelationInput where
  «public» : PrivateIdentityPublicInputs
  witness : PrivateIdentityWitness
deriving DecidableEq

/-! ## The relation -/

/-- The message of `Option::unwrap` on `None`. -/
def unwrapOnNone : String := "called `Option::unwrap()` on a `None` value"

/-- The age branch of `verify_private_identity_relation`. -/
def verifyAge (p : PrivateIdentityStatement) (w : PrivateIdentityWitness) :
    Except (Fault PrivateIdentityError) Unit := do
  rejectIf (w.jurisdiction ≠ none ∨ w.registryEntries ≠ []) (.error .invalidWitness)
  let birth ← okOr w.dateOfBirth (.error .invalidWitness)
  let reference ← okOr p.referenceDate (.error .invalidPublicInput)
  let age ← birth.ageAt reference
  let minimum ← okOr p.minimumAge (.panic unwrapOnNone)
  rejectIf (age < minimum ∨ ∃ m ∈ p.maximumAge, m < age) (.error .predicateFalse)

/-- The set branch of `verify_private_identity_relation`.  The entries are in order once
`registry_root` returned, so `binary_search` decides membership. -/
def verifyJurisdiction (C : Crypto) (p : PrivateIdentityStatement) (w : PrivateIdentityWitness) :
    Except (Fault PrivateIdentityError) Unit := do
  rejectIf (w.dateOfBirth ≠ none) (.error .invalidWitness)
  let code ← okOr w.jurisdiction (.error .invalidWitness)
  let root ← (registryRoot C w.registryEntries).mapError fun e => .error e
  let expected ← okOr p.jurisdictionSetRoot (.panic unwrapOnNone)
  rejectIf (root ≠ expected) (.error .registryRootMismatch)
  rejectIf (¬ (code ∈ w.registryEntries ↔ p.kind = .residencyIn ∨ p.kind = .nationalityIn))
    (.error .predicateFalse)

def verifyPrivateIdentityRelation (C : Crypto) (input : PrivateIdentityRelationInput) :
    Except (Fault PrivateIdentityError) Unit :=
  if input.public.kind.IsAge then
    verifyAge input.public.toPrivateIdentityStatement input.witness
  else
    verifyJurisdiction C input.public.toPrivateIdentityStatement input.witness

variable {input : PrivateIdentityRelationInput}

theorem verify_age (C : Crypto) (h : input.public.kind.IsAge) :
    verifyPrivateIdentityRelation C input =
      verifyAge input.public.toPrivateIdentityStatement input.witness := if_pos h

theorem verify_jurisdiction (C : Crypto) (h : ¬ input.public.kind.IsAge) :
    verifyPrivateIdentityRelation C input =
      verifyJurisdiction C input.public.toPrivateIdentityStatement input.witness := if_neg h

variable {p : PrivateIdentityStatement} {w : PrivateIdentityWitness}

theorem verifyAge_eq_ok :
    verifyAge p w = .ok () ↔ ∃ birth ref age minimum, w = ⟨some birth, none, []⟩ ∧
      p.referenceDate = some ref ∧ birth.ageAt ref = .ok age ∧
      p.minimumAge = some minimum ∧ minimum ≤ age ∧ ∀ m ∈ p.maximumAge, age ≤ m := by
  obtain ⟨dateOfBirth, jurisdiction, registryEntries⟩ := w
  simp only [verifyAge, inversion, not_lt, not_exists, not_and, PrivateIdentityWitness.mk.injEq,
    exists_and_left, and_assoc]
  tauto

theorem verifyJurisdiction_eq_ok :
    verifyJurisdiction C p w = .ok () ↔ ∃ code es root, w = ⟨none, some code, es⟩ ∧
      registryRoot C es = .ok root ∧ p.jurisdictionSetRoot = some root ∧
      (code ∈ es ↔ p.kind = .residencyIn ∨ p.kind = .nationalityIn) := by
  obtain ⟨dateOfBirth, jurisdiction, registryEntries⟩ := w
  simp only [verifyJurisdiction, inversion, ne_eq, PrivateIdentityWitness.mk.injEq, existsAndEq,
    exists_and_left, and_assoc, true_and]

theorem minimumAge_isSome (p : PrivateIdentityPublicInputs) (h : p.kind.IsAge) :
    p.minimumAge.isSome := by
  have hc := p.checked
  simp only [PrivateIdentityStatement.Malformed, not_or, not_not] at hc
  exact hc.2.1.1 h

theorem jurisdictionSetRoot_isSome (p : PrivateIdentityPublicInputs) (h : ¬ p.kind.IsAge) :
    p.jurisdictionSetRoot.isSome := by
  have hc := p.checked
  simp only [PrivateIdentityStatement.Malformed, not_or] at hc
  by_contra hn
  exact hc.2.2.2.2.2.1 ⟨fun hage => absurd hage h, fun hs => absurd hs hn⟩

/-- **The relation never panics**: the constructor of the statement requires a minimum age of every
age statement and a set root of every other one, and the ages are differences of ordered dates. -/
theorem verify_not_panics (C : Crypto) (input : PrivateIdentityRelationInput) :
    ¬ (verifyPrivateIdentityRelation C input).Panics := by
  by_cases hage : input.public.kind.IsAge
  · obtain ⟨minimum, hmin⟩ := isSome_iff_exists.1 (minimumAge_isSome input.public hage)
    simp [verify_age C hage, verifyAge, hmin, okOr_some, ok_bind, panics_bind, not_panics_okOr,
      CanonicalDate.ageAt_not_panics, not_panics_reject]
  · obtain ⟨root, hr⟩ := isSome_iff_exists.1 (jurisdictionSetRoot_isSome input.public hage)
    simp [verify_jurisdiction C hage, verifyJurisdiction, hr, okOr_some, ok_bind,
      panics_bind, not_panics_okOr, not_panics_mapError (g := fun e => e),
      not_panics_reject]

/-! ## What can be proved -/

namespace PrivateIdentityStatement

variable (n : Nat) (date : CanonicalDate) (p : PrivateIdentityStatement)

/-- The statement says: at least `n` years old on the date. -/
def AtLeast : Prop := p.kind.IsAge ∧ p.referenceDate = some date ∧ ∃ m ∈ p.minimumAge, n ≤ m

/-- The statement says: at most `n` years old on the date. -/
def AtMost : Prop := p.kind.IsAge ∧ p.referenceDate = some date ∧ ∃ m ∈ p.maximumAge, m ≤ n

variable (root : Digest384) (p : PrivateIdentityStatement)

/-- The statement says: resident in a member of the set. -/
def ResidentIn : Prop := p.kind = .residencyIn ∧ p.jurisdictionSetRoot = some root

/-- The statement says: resident outside the set. -/
def NotResidentIn : Prop := p.kind = .residencyNotIn ∧ p.jurisdictionSetRoot = some root

end PrivateIdentityStatement

open PrivateIdentityStatement

/-- An issuer, a schema and a holder that statements may name. -/
structure IdentityBinding where
  issuer : PrincipalId
  schema : Digest384
  holderBinding : Digest384
  issuer_ne_zero : issuer ≠ zero
  schema_ne_zero : schema ≠ zero
  holderBinding_ne_zero : holderBinding ≠ zero

/-- The statement is about the holder, under the issuer and the schema. -/
structure PrivateIdentityStatement.BoundTo (p : PrivateIdentityStatement) (b : IdentityBinding) :
    Prop where
  issuer : p.issuer = b.issuer
  schema : p.schema = b.schema
  holderBinding : p.holderBinding = b.holderBinding

/-- Some accepted input makes a statement of this form about the holder, with a witness of this
form. -/
def ProvableWith (C : Crypto) (b : IdentityBinding) (asserts : PrivateIdentityStatement → Prop)
    (holds : PrivateIdentityWitness → Prop) : Prop :=
  ∃ input : PrivateIdentityRelationInput, verifyPrivateIdentityRelation C input = .ok () ∧
    input.public.BoundTo b ∧ asserts input.public.toPrivateIdentityStatement ∧ holds input.witness

namespace IdentityBinding

variable {C : Crypto} (b : IdentityBinding)

section

variable (kind : PrivateIdentityPredicateKind) (minimumAge maximumAge : Option Nat)
  (referenceDate : Option CanonicalDate) (root : Option Digest384)

/-- A statement about the holder, with all other context digests equal to one. -/
def statement : PrivateIdentityStatement where
  kind := kind
  minimumAge := minimumAge
  maximumAge := maximumAge
  referenceDate := referenceDate
  jurisdictionSetRoot := root
  registryRevision := root.map fun _ => 1
  chain := 1
  chainGenesis := 1
  asset := none
  action := 1
  audience := 1
  verifier := 1
  purpose := 1
  policyRevision := 1
  nonce := 1
  expiresHeight := 2
  finalizedHeight := 1
  statusRoot := 1
  issuer := b.issuer
  schema := b.schema
  holderBinding := b.holderBinding
  linkabilityScope := 1
  conjunctionCount := 1

theorem statement_boundTo : (b.statement kind minimumAge maximumAge referenceDate root).BoundTo b :=
  ⟨rfl, rfl, rfl⟩

end

variable {kind : PrivateIdentityPredicateKind}

theorem statement_checked {minimumAge maximumAge : Option Nat}
    {referenceDate : Option CanonicalDate} {root : Option Digest384}
    (hd : kind.IsAge ↔ referenceDate.isSome) (hmin : kind.IsAge ↔ minimumAge.isSome)
    (hmax : kind = .ageInRange ↔ maximumAge.isSome) (hz : minimumAge ≠ some 0)
    (hra : ∀ m ∈ maximumAge, minimumAge.getD 0 ≤ m) (hset : ¬ (kind.IsAge ↔ root.isSome))
    (hro : root ≠ some zero) :
    ¬ (b.statement kind minimumAge maximumAge referenceDate root).Malformed := by
  have hone : (1 : Digest384) ≠ zero := Nat.one_ne_zero
  have hr : ¬ (kind.IsAge ↔ (root.map fun _ => 1).isSome) := by
    rwa [isSome_map]
  simp only [Malformed, statement, not_or, not_not, not_exists, not_and,
    not_lt, List.forall_mem_cons]
  refine ⟨hd, hmin, hmax, hz, hra, hset, hr, hro, ?_, ?_, hone, hone,
    b.issuer_ne_zero, ?_, ?_, ?_, ?_, ?_, ?_⟩
  · cases root <;> simp
  · exact ⟨hone, hone, hone, hone, b.schema_ne_zero, b.holderBinding_ne_zero, hone, by simp⟩
  all_goals decide

variable {asserts : PrivateIdentityStatement → Prop}

theorem provable_age {minimum age : Nat} {maximum : Option Nat} {date birth : CanonicalDate}
    (hk : kind.IsAge) (hmax : kind = .ageInRange ↔ maximum.isSome) (hz : minimum ≠ 0)
    (hage : birth.ageAt date = .ok age) (hmin : minimum ≤ age) (hr : ∀ m ∈ maximum, age ≤ m)
    (has : asserts (b.statement kind (some minimum) maximum (some date) none)) :
    ProvableWith C b asserts (·.dateOfBirth = some birth) := by
  have hc : ¬ (b.statement kind (some minimum) maximum (some date) none).Malformed := by
    apply b.statement_checked
    · simpa using hk
    · simpa using hk
    · exact hmax
    · simpa using hz
    · exact fun m hm => hmin.trans (hr m hm)
    · simpa using hk
    · simp
  refine ⟨⟨⟨_, hc⟩, ⟨some birth, none, []⟩⟩, ?_, b.statement_boundTo _ _ _ _ _, has, rfl⟩
  exact (verify_age C hk).trans
    (verifyAge_eq_ok.2 ⟨birth, date, age, minimum, rfl, rfl, hage, rfl, hmin, hr⟩)

theorem provable_residence {root : Digest384} {es : List JurisdictionCode} {code : JurisdictionCode}
    (hk : ¬ kind.IsAge) (hr : registryRoot C es = .ok root) (hz : root ≠ zero)
    (hm : code ∈ es ↔ kind = .residencyIn ∨ kind = .nationalityIn)
    (has : asserts (b.statement kind none none none (some root))) :
    ProvableWith C b asserts (·.jurisdiction = some code) := by
  have hc : ¬ (b.statement kind none none none (some root)).Malformed := by
    apply b.statement_checked
    · simpa using hk
    · simpa using hk
    · simpa using fun h => hk (.inr h)
    · simp
    · simp
    · simpa using hk
    · simpa using hz
  refine ⟨⟨⟨_, hc⟩, ⟨none, some code, es⟩⟩, ?_, b.statement_boundTo _ _ _ _ _, has, rfl⟩
  exact (verify_jurisdiction C hk).trans
    (verifyJurisdiction_eq_ok.2 ⟨code, es, root, rfl, hr, rfl, hm⟩)

end IdentityBinding

section

variable (h : verifyPrivateIdentityRelation C input = .ok ())
include h

theorem age_of_accepted {date birth : CanonicalDate} (hk : input.public.kind.IsAge)
    (hd : input.public.referenceDate = some date) (hb : input.witness.dateOfBirth = some birth) :
    ∃ age minimum, birth.ageAt date = .ok age ∧ input.public.minimumAge = some minimum ∧
      minimum ≠ 0 ∧ minimum ≤ age ∧ ∀ m ∈ input.public.maximumAge, age ≤ m := by
  rw [verify_age C hk, verifyAge_eq_ok] at h
  obtain ⟨_, _, age, minimum, hw, hd', hage, hmin, hle, hmax⟩ := h
  cases hd.symm.trans hd'
  rw [hw] at hb
  cases hb
  refine ⟨age, minimum, hage, hmin, ?_, hle, hmax⟩
  rintro rfl
  exact input.public.checked (.inr (.inr (.inr (.inl hmin))))

theorem residence_of_accepted {code : JurisdictionCode} (hk : ¬ input.public.kind.IsAge)
    (hset : input.public.jurisdictionSetRoot = some root)
    (hco : input.witness.jurisdiction = some code) :
    root ≠ zero ∧ ∃ es, registryRoot C es = .ok root ∧
      (code ∈ es ↔
        input.public.kind = .residencyIn ∨ input.public.kind = .nationalityIn) := by
  rw [verify_jurisdiction C hk, verifyJurisdiction_eq_ok] at h
  obtain ⟨_, es, _, hw, hr, hset', hm⟩ := h
  cases hset.symm.trans hset'
  rw [hw] at hco
  cases hco
  refine ⟨?_, es, hr, hm⟩
  rintro rfl
  have hc := input.public.checked
  simp only [Malformed, not_or] at hc
  exact hc.2.2.2.2.2.2.2.1 hset

end

section Provable

variable {C : Crypto} {b : IdentityBinding}

variable {birth date : CanonicalDate}

theorem provable_atLeast_iff {n : Nat} (hn : n ≠ 0) :
    ProvableWith C b (AtLeast n date) (·.dateOfBirth = some birth) ↔
      ∃ age, birth.ageAt date = .ok age ∧ n ≤ age := by
  constructor
  · rintro ⟨input, hac, -, ⟨hk, hd, m, hm, hle⟩, hb⟩
    obtain ⟨age, _, hage, hmin, -, hmin_le, -⟩ := age_of_accepted hac hk hd hb
    cases hm.symm.trans hmin
    exact ⟨age, hage, hle.trans hmin_le⟩
  · rintro ⟨age, hage, hle⟩
    have hmax : ∀ m ∈ (none : Option Nat), age ≤ m := by simp
    exact b.provable_age (.inl rfl) (by simp) hn hage hle hmax
      ⟨.inl rfl, rfl, n, rfl, le_rfl⟩

/-- An age of at most `n` can be proved with the dates of birth that give such an age, unless the
holder is not yet one year old: the minimum of a range is positive. -/
theorem provable_atMost_iff {n : Nat} :
    ProvableWith C b (AtMost n date) (·.dateOfBirth = some birth) ↔
      ∃ age, birth.ageAt date = .ok age ∧ age ≠ 0 ∧ age ≤ n := by
  constructor
  · rintro ⟨input, hac, -, ⟨hk, hd, m, hm, hle⟩, hb⟩
    obtain ⟨age, minimum, hage, -, hz, hmin, hmax⟩ := age_of_accepted hac hk hd hb
    exact ⟨age, hage, Nat.ne_of_gt (Nat.lt_of_lt_of_le (Nat.pos_of_ne_zero hz) hmin),
      (hmax m hm).trans hle⟩
  · rintro ⟨age, hage, hz, hle⟩
    exact b.provable_age (.inr rfl) (by simp) hz hage le_rfl (by simpa using hle)
      ⟨.inr rfl, rfl, n, rfl, le_rfl⟩

variable {root : Digest384} {code : JurisdictionCode}

theorem provable_residentIn_iff :
    ProvableWith C b (ResidentIn root) (·.jurisdiction = some code) ↔
      root ≠ zero ∧ ∃ entries, registryRoot C entries = .ok root ∧ code ∈ entries := by
  constructor
  · rintro ⟨input, hac, -, ⟨hk, hset⟩, hc⟩
    obtain ⟨hz, entries, hr, hm⟩ := residence_of_accepted hac (by rw [hk]; decide) hset hc
    exact ⟨hz, entries, hr, hm.2 (.inl hk)⟩
  · rintro ⟨hz, entries, hr, hm⟩
    exact b.provable_residence (by decide) hr hz (by simpa using hm) ⟨rfl, rfl⟩

theorem provable_notResidentIn_iff :
    ProvableWith C b (NotResidentIn root) (·.jurisdiction = some code) ↔
      root ≠ zero ∧ ∃ entries, registryRoot C entries = .ok root ∧ code ∉ entries := by
  constructor
  · rintro ⟨input, hac, -, ⟨hk, hset⟩, hc⟩
    obtain ⟨hz, entries, hr, hm⟩ := residence_of_accepted hac (by rw [hk]; decide) hset hc
    exact ⟨hz, entries, hr, fun h => by simpa [hk] using hm.1 h⟩
  · rintro ⟨hz, entries, hr, hm⟩
    exact b.provable_residence (by decide) hr hz (by simpa using hm) ⟨rfl, rfl⟩

end Provable

end ActiveChain
