import ActiveChain.Accumulator.ReferenceSet
import ActiveChain.Cash.LedgerCodec

/-!
# Ledgers of earlier schemas (`cash-kernel::transition`)

Two earlier schemas list nullifiers and redeemed rewards one by one, and the first has no counters
for the issuance window.  Their readers replace the lists by commitments; where the counters are
missing they take the whole allowance of the window for spent.

* `CashLedger.decodeLegacyV1`, `CashLedger.decodeLegacyV2` — the readers.
* `readLegacySet_eq_ok` — the lists that are accepted.
* `CashLedger.decodeLegacyV1_eq_ok`, `CashLedger.decodeLegacyV2_eq_ok` — **the encodings that are
  accepted, and the ledgers they become.**
-/

namespace ActiveChain

open Decode List ReferenceSet

/-! ## Readers -/

def legacyMaxSpentNullifiers : Nat := 4096

def legacyMaxRedeemedRewards : Nat := 4096

def readKey : Decode AccumulatorKey := do return BitVec.ofNat keyBits (← readInt 48)

/-- The loop over a list of keys, with the messages for a wrong order and for a wrong key. -/
def readLegacyKeys (C : Crypto) (unordered rejected : String) :
    Nat → Option AccumulatorKey → ReferenceSet → Decode ReferenceSet
  | 0, _, reference => return reference
  | rounds + 1, previous, reference => do
    let key ← readKey
    check (rejectIf (∃ prior ∈ previous, key ≤ prior) (.error (.invalidValue unordered)))
    let reference ← check (orInvalid (reference.insert C key) rejected)
    readLegacyKeys C unordered rejected rounds (some key) reference

/-- A list of at most `limit` keys, and its commitment. -/
def readLegacySet (C : Crypto) (domain : AccumulatorDomain) (limit : Nat)
    (unordered rejected : String) : Decode SetCommitment := do
  let count ← readLength limit
  let reference ← readLegacyKeys C unordered rejected count none (ReferenceSet.new C domain)
  return reference.commitment

def NullifierSet.decodeLegacyV1 (C : Crypto) : Decode NullifierSet := do
  let commitment ← readLegacySet C .nullifier legacyMaxSpentNullifiers
    "legacy nullifiers are not strictly ordered" "invalid legacy nullifier set"
  return .fromCommitment commitment

def ShieldedCashState.decodeLegacyV1 (C : Crypto) : Decode ShieldedCashState := do
  let poolBalance ← readInt 16
  let anchor ← readInt 48
  let nullifiers ← NullifierSet.decodeLegacyV1 C
  check (orInvalid (ShieldedCashState.new poolBalance anchor nullifiers) "invalid privacy value")

def decodeLegacyRewardCommitment (C : Crypto) : Decode SetCommitment :=
  readLegacySet C .spentInput legacyMaxRedeemedRewards
    "legacy reward replay set is not strictly ordered" "invalid legacy reward replay set"

/-- Window, opening supply and charged issuance of a schema without these counters. -/
def legacyWindow (genesisSupply currentTotalSupply lastSettledEpoch
    maximumOrdinaryAnnualIssuanceBps : Nat) : Except (Fault DecodeError) (Nat × Nat × Nat) :=
  if lastSettledEpoch = 0 then .ok (0, genesisSupply, 0)
  else do
    let window ← orInvalid (issuanceWindowIndex lastSettledEpoch) "invalid legacy issuance epoch"
    let charged ← orInvalid (basisPointsAmount currentTotalSupply maximumOrdinaryAnnualIssuanceBps)
      "invalid legacy issuance cap"
    return (window, currentTotalSupply, charged)

def NativeSupply.decodeLegacyV1 (maximumOrdinaryAnnualIssuanceBps : Nat) : Decode NativeSupply := do
  let genesisSupply ← readInt 16
  let cumulativeSecurityIssuance ← readInt 16
  let cumulativeBurn ← readInt 16
  let currentTotalSupply ← readInt 16
  let circulatingSupply ← readInt 16
  let lockedVestingSupply ← readInt 16
  let stakedSupply ← readInt 16
  let securityReserveBalance ← readInt 16
  let lastSettledEpoch ← readInt 8
  let (window, openingSupply, chargedIssuance) ← check (legacyWindow genesisSupply
    currentTotalSupply lastSettledEpoch maximumOrdinaryAnnualIssuanceBps)
  check (orInvalid (NativeSupply.new ⟨genesisSupply, cumulativeSecurityIssuance, cumulativeBurn,
    currentTotalSupply, circulatingSupply, lockedVestingSupply, stakedSupply,
    securityReserveBalance, lastSettledEpoch, window, openingSupply, chargedIssuance⟩)
    "invalid legacy native supply state")

/-- What both schemas do with a definition and a supply. -/
def CashLedger.decodeLegacyRest (C : Crypto) (definition : NativeAssetDefinition)
    (supply : NativeSupply) : Decode CashLedger := do
  let cells ← CoinCellSet.decode
  let shielded ← ShieldedCashState.decodeLegacyV1 C
  let commitment ← decodeLegacyRewardCommitment C
  let ledger : CashLedger :=
    ⟨definition, supply, cells, shielded, commitment.root, commitment.count⟩
  check (orInvalid (ledger.verifyInvariants C) "invalid legacy cash ledger")
  return ledger

def CashLedger.decodeLegacyV1 (C : Crypto) : Decode CashLedger := do
  let definition ← NativeAssetDefinition.decode
  let supply ← NativeSupply.decodeLegacyV1 definition.maximumOrdinaryAnnualIssuanceBps
  decodeLegacyRest C definition supply

def CashLedger.decodeLegacyV2 (C : Crypto) : Decode CashLedger := do
  let definition ← NativeAssetDefinition.decode
  let supply ← NativeSupply.decode
  decodeLegacyRest C definition supply

/-! ## What an encoding says -/

structure LegacySupplyV1 where
  genesisSupply : Nat
  cumulativeSecurityIssuance : Nat
  cumulativeBurn : Nat
  currentTotalSupply : Nat
  circulatingSupply : Nat
  lockedVestingSupply : Nat
  stakedSupply : Nat
  securityReserveBalance : Nat
  lastSettledEpoch : Nat

def LegacySupplyV1.bytes (s : LegacySupplyV1) : List UInt8 :=
  beBytes 16 s.genesisSupply ++ (beBytes 16 s.cumulativeSecurityIssuance ++
    (beBytes 16 s.cumulativeBurn ++ (beBytes 16 s.currentTotalSupply ++
      (beBytes 16 s.circulatingSupply ++ (beBytes 16 s.lockedVestingSupply ++
        (beBytes 16 s.stakedSupply ++ (beBytes 16 s.securityReserveBalance ++
          beBytes 8 s.lastSettledEpoch)))))))

/-- A ledger of an earlier schema, with the counters of that schema. -/
structure LegacyCashLedger (σ : Type) where
  definition : NativeAssetDefinition
  supply : σ
  cells : CoinCellSet
  poolBalance : Nat
  anchor : Digest384
  nullifiers : List AccumulatorKey
  redeemedRewards : List AccumulatorKey

def keyBytes (key : AccumulatorKey) : List UInt8 := beBytes 48 key.toNat

def LegacyCashLedger.bytes {σ : Type} (supplyBytes : σ → List UInt8) (l : LegacyCashLedger σ) :
    List UInt8 :=
  l.definition.bytes ++ (supplyBytes l.supply ++ (l.cells.bytes ++ (beBytes 16 l.poolBalance ++
    (beBytes 48 l.anchor ++ (listBytes keyBytes l.nullifiers ++
      listBytes keyBytes l.redeemedRewards)))))

/-- The counters of the first schema, completed by those of a window. -/
def LegacySupplyV1.fields (s : LegacySupplyV1) (window : Nat × Nat × Nat) : NativeSupplyFields where
  genesisSupply := s.genesisSupply
  cumulativeSecurityIssuance := s.cumulativeSecurityIssuance
  cumulativeBurn := s.cumulativeBurn
  currentTotalSupply := s.currentTotalSupply
  circulatingSupply := s.circulatingSupply
  lockedVestingSupply := s.lockedVestingSupply
  stakedSupply := s.stakedSupply
  securityReserveBalance := s.securityReserveBalance
  lastSettledEpoch := s.lastSettledEpoch
  issuanceWindow := window.1
  issuanceWindowOpeningSupply := window.2.1
  issuanceInWindow := window.2.2

/-- The ledger that a reader makes of it, with a supply. -/
def LegacyCashLedger.migrated {σ : Type} (C : Crypto) (l : LegacyCashLedger σ)
    (supply : NativeSupply) : CashLedger where
  definition := l.definition
  supply := supply
  cells := l.cells
  shielded := ⟨l.poolBalance, l.anchor, .ofSpent C l.nullifiers.reverse⟩
  redeemedRewardRoot := (commitmentOf C .spentInput l.redeemedRewards.reverse).root
  redeemedRewardCount := (commitmentOf C .spentInput l.redeemedRewards.reverse).count

/-! ## Lists of keys -/

section Keys

variable {C : Crypto} {unordered rejected : String} {input rest : List UInt8}

theorem pairwise_gt_cons_iff {key : AccumulatorKey} {keys : List AccumulatorKey}
    (h : keys.Pairwise (· > ·)) :
    (key :: keys).Pairwise (· > ·) ↔ ¬ ∃ prior ∈ keys.head?, key ≤ prior := by
  rw [pairwise_cons, and_iff_left h]
  cases keys with
  | nil => simp
  | cons prior keys =>
    obtain ⟨hall, -⟩ := pairwise_cons.1 h
    simp only [head?_cons, Option.mem_some_iff, exists_eq_left', BitVec.not_le]
    constructor
    · intro hkey
      exact hkey prior mem_cons_self
    · intro hkey k hk
      rcases mem_cons.1 hk with rfl | hk
      · exact hkey
      · exact BitVec.lt_trans (hall k hk) hkey

theorem readKey_eq_ok {key : AccumulatorKey} :
    readKey.run input = .ok (key, rest) ↔ input = keyBytes key ++ rest := by
  have hw : 256 ^ 48 = 2 ^ keyBits := by
    rw [show keyBits = 8 * 48 from rfl, Nat.pow_mul]
  simp only [readKey, run_bind_eq_ok, (codes_int 48).read_eq_ok, run_pure_eq_ok]
  constructor
  · rintro ⟨n, between, ⟨hn, hi⟩, hid, rfl⟩
    have hnu : key.toNat = n := by
      rw [hid, BitVec.toNat_ofNat, Nat.mod_eq_of_lt (lt_of_lt_of_eq hn hw)]
    rw [hi, keyBytes, hnu]
  · intro hi
    refine ⟨key.toNat, rest, ⟨lt_of_lt_of_eq key.isLt hw.symm, hi⟩, ?_, rfl⟩
    exact BitVec.eq_of_toNat_eq (by rw [BitVec.toNat_ofNat, Nat.mod_eq_of_lt key.isLt])

theorem readLegacyKeys_succ {n : Nat} {previous : Option AccumulatorKey}
    {ref reference' : ReferenceSet} :
    (readLegacyKeys C unordered rejected (n + 1) previous ref).run input =
        .ok (reference', rest) ↔
      ∃ key between, input = keyBytes key ++ between ∧ (¬ ∃ prior ∈ previous, key ≤ prior) ∧
        ∃ next, ref.insert C key = .ok next ∧
        (readLegacyKeys C unordered rejected n (some key) next).run between =
          .ok (reference', rest) := by
  simp only [readLegacyKeys, Decode.inversion, readKey_eq_ok, Except.inversion, existsAndEq]

variable {c : SetCommitment}

/-- **The loop accepts strictly ordered nonzero keys, and ends with their commitment.** -/
theorem readLegacyKeys_eq_ok (n : Nat) :
    ∀ {ref : ReferenceSet} {input : List UInt8}, ref.WellFormed C →
      ref.keys.Pairwise (· > ·) → ref.keys.length + n < 2 ^ 64 →
      ((∃ reference', (readLegacyKeys C unordered rejected n ref.keys.head? ref).run
          input = .ok (reference', rest) ∧ reference'.commitment = c) ↔
        ∃ keys : List AccumulatorKey, keys.length = n ∧
          (keys.reverse ++ ref.keys).Pairwise (· > ·) ∧ (∀ key ∈ keys, key ≠ 0) ∧
          c = commitmentOf C ref.domain (keys.reverse ++ ref.keys) ∧
          input = keys.flatMap keyBytes ++ rest) := by
  induction n with
  | zero =>
    intro ref input hwf hs _
    simp only [readLegacyKeys, run_pure_eq_ok, length_eq_zero_iff]
    constructor
    · rintro ⟨_, ⟨rfl, rfl⟩, rfl⟩
      exact ⟨[], rfl, hs, by simp, hwf.commitment, rfl⟩
    · rintro ⟨_, rfl, -, -, rfl, rfl⟩
      exact ⟨ref, ⟨rfl, rfl⟩, hwf.commitment⟩
  | succ n ih =>
    intro ref input hwf hs hsm
    -- the rounds after an accepted key, as the induction hypothesis sees them
    have hr : ∀ {key : AccumulatorKey} {next : ReferenceSet} {between : List UInt8},
        ref.insert C key = .ok next → (key :: ref.keys).Pairwise (· > ·) →
        ((∃ reference', (readLegacyKeys C unordered rejected n (some key) next).run between =
            .ok (reference', rest) ∧ reference'.commitment = c) ↔
          ∃ keys : List AccumulatorKey, keys.length = n ∧
            ((key :: keys).reverse ++ ref.keys).Pairwise (· > ·) ∧ (∀ key ∈ keys, key ≠ 0) ∧
            c = commitmentOf C ref.domain ((key :: keys).reverse ++ ref.keys) ∧
            between = keys.flatMap keyBytes ++ rest) := by
      intro key next between hi hcon
      obtain ⟨hwf', hd, hk⟩ := ReferenceSet.wellFormed_insert hwf hi
      have hne := @ih next between hwf' (hk ▸ hcon) (by rw [hk, length_cons]; omega)
      simpa [hk, hd] using hne
    constructor
    · rintro ⟨reference', hrun, hco⟩
      obtain ⟨key, between, rfl, ho, next, hi, hrun⟩ := readLegacyKeys_succ.1 hrun
      obtain ⟨keys, hl, hall, hn, hc, rfl⟩ :=
        (hr hi ((pairwise_gt_cons_iff hs).2 ho)).1 ⟨reference', hrun, hco⟩
      refine ⟨key :: keys, by rw [length_cons, hl], hall,
        forall_mem_cons.2 ⟨?_, hn⟩, hc, by simp⟩
      simp only [ReferenceSet.insert, Except.inversion] at hi
      exact hi.1.1
    · rintro ⟨_ | ⟨key, keys⟩, hl, hall, hn, hc, rfl⟩
      · cases hl
      obtain ⟨hz, hn⟩ := forall_mem_cons.1 hn
      have hcon : (key :: ref.keys).Pairwise (· > ·) := by
        rw [reverse_cons, append_assoc, singleton_append] at hall
        exact (pairwise_append.1 hall).2.1
      have hf : key ∉ ref.keys := fun hmem =>
        BitVec.lt_irrefl key ((pairwise_cons.1 hcon).1 key hmem)
      obtain ⟨next, hi⟩ := ReferenceSet.insert_eq_ok (C := C) hz hf (by rw [length_cons]; omega)
      obtain ⟨reference', hrun, hco⟩ := (hr hi hcon).2 ⟨keys, by simpa using hl, hall, hn, hc, rfl⟩
      exact ⟨reference', readLegacyKeys_succ.2 ⟨key, _, by simp,
        (pairwise_gt_cons_iff hs).1 hcon, next, hi, hrun⟩, hco⟩

/-- Keys that the readers accept. -/
structure LegacyKeys (limit : Nat) (keys : List AccumulatorKey) : Prop where
  bounded : keys.length ≤ limit
  ordered : keys.Pairwise (· < ·)
  nonzero : ∀ key ∈ keys, key ≠ 0

theorem readLegacySet_eq_ok {domain : AccumulatorDomain} {limit : Nat}
    (hl : limit ≤ maxBodyLength) :
    (readLegacySet C domain limit unordered rejected).run input = .ok (c, rest) ↔
      ∃ keys, LegacyKeys limit keys ∧ c = commitmentOf C domain keys.reverse ∧
        input = listBytes keyBytes keys ++ rest := by
  have hnew : (new C domain).WellFormed C := wellFormed_new
  have hlo : ∀ {count : Nat} {between : List UInt8}, count ≤ limit →
      ((∃ reference', (readLegacyKeys C unordered rejected count none (.new C domain)).run between =
          .ok (reference', rest) ∧ reference'.commitment = c) ↔
        ∃ keys : List AccumulatorKey, keys.length = count ∧ keys.Pairwise (· < ·) ∧
          (∀ key ∈ keys, key ≠ 0) ∧ c = commitmentOf C domain keys.reverse ∧
          between = keys.flatMap keyBytes ++ rest) := by
    intro count between hco
    have hs : count < 2 ^ 64 := lt_of_le_of_lt (hco.trans hl) (by decide)
    have hk : (∃ reference', (readLegacyKeys C unordered rejected count
        (new C domain).keys.head? (.new C domain)).run between = .ok (reference', rest) ∧
        reference'.commitment = c) ↔ _ :=
      readLegacyKeys_eq_ok count hnew List.Pairwise.nil ((Nat.zero_add count).symm ▸ hs)
    simpa [new, pairwise_reverse] using hk
  simp only [readLegacySet, run_bind_eq_ok, readLength_eq_ok, run_pure_eq_ok]
  constructor
  · rintro ⟨count, between, ⟨hco, -, rfl⟩, ref, _, hrun, rfl, rfl⟩
    obtain ⟨keys, rfl, ho, hn, hc, rfl⟩ := (hlo hco).1 ⟨ref, hrun, rfl⟩
    exact ⟨keys, ⟨hco, ho, hn⟩, hc, by rw [listBytes, append_assoc]⟩
  · rintro ⟨keys, h, hc, rfl⟩
    obtain ⟨ref, hrun, hcom⟩ := (hlo h.bounded).2 ⟨keys, rfl, h.ordered, h.nonzero, hc, rfl⟩
    exact ⟨keys.length, _, ⟨h.bounded, h.bounded.trans hl, by rw [listBytes, append_assoc]⟩,
      ref, _, hrun, hcom.symm, rfl⟩

end Keys

open CashLedger

open ShieldedCashState

/-! ## Accepted encodings -/

section Accepted

variable {C : Crypto} {input rest : List UInt8}

/-- The parts that both schemas share, as the readers accept them. -/
structure LegacyCashLedger.Readable {σ : Type} (l : LegacyCashLedger σ) : Prop where
  cells : l.cells.InRange
  poolBalance : l.poolBalance < 256 ^ 16
  anchor : l.anchor < 256 ^ 48
  anchored : l.poolBalance = 0 → l.anchor = Digest384.zero
  nullifiers : LegacyKeys legacyMaxSpentNullifiers l.nullifiers
  redeemedRewards : LegacyKeys legacyMaxRedeemedRewards l.redeemedRewards

theorem NullifierSet.decodeLegacyV1_eq_ok {s : NullifierSet} :
    (NullifierSet.decodeLegacyV1 C).run input = .ok (s, rest) ↔
      ∃ keys, LegacyKeys legacyMaxSpentNullifiers keys ∧ s = .ofSpent C keys.reverse ∧
        input = listBytes keyBytes keys ++ rest := by
  have hmax : legacyMaxSpentNullifiers ≤ maxBodyLength := by decide
  simp only [NullifierSet.decodeLegacyV1, Decode.inversion, readLegacySet_eq_ok hmax, existsAndEq]
  exact exists_congr fun keys => and_congr_right fun _ => and_comm

theorem ShieldedCashState.decodeLegacyV1_eq_ok {s : ShieldedCashState} :
    (decodeLegacyV1 C).run input = .ok (s, rest) ↔
      ∃ keys, LegacyKeys legacyMaxSpentNullifiers keys ∧ s.nullifiers = .ofSpent C keys.reverse ∧
        s.poolBalance < 256 ^ 16 ∧ s.anchor < 256 ^ 48 ∧
        (s.poolBalance = 0 → s.anchor = Digest384.zero) ∧
        input = beBytes 16 s.poolBalance ++ (beBytes 48 s.anchor ++
          (listBytes keyBytes keys ++ rest)) := by
  obtain ⟨pool, anchor, nullifiers⟩ := s
  simp only [decodeLegacyV1, new, Decode.inversion, NullifierSet.decodeLegacyV1_eq_ok,
    Except.inversion, not_and, mk.injEq, existsAndEq]
  rw [← exists_and_left]
  exact exists_congr fun keys => by tauto

variable {l : CashLedger} {supply : NativeSupply}

theorem CashLedger.decodeLegacyRest_eq_ok {σ : Type} {definition : NativeAssetDefinition}
    (old : σ) : (decodeLegacyRest C definition supply).run input = .ok (l, rest) ↔
      ∃ legacy : LegacyCashLedger σ, legacy.definition = definition ∧ legacy.supply = old ∧
        legacy.Readable ∧ l = legacy.migrated C supply ∧ l.verifyInvariants C = .ok () ∧
        input = legacy.cells.bytes ++ (beBytes 16 legacy.poolBalance ++ (beBytes 48 legacy.anchor ++
          (listBytes keyBytes legacy.nullifiers ++
            (listBytes keyBytes legacy.redeemedRewards ++ rest)))) := by
  simp only [decodeLegacyRest, Decode.inversion, CoinCellSet.codes.read_eq_ok,
    decodeLegacyV1_eq_ok, decodeLegacyRewardCommitment, readLegacySet_eq_ok
    (show legacyMaxRedeemedRewards ≤ _ by decide),
    Except.inversion, existsAndEq]
  constructor
  · rintro ⟨cs, hc, ⟨pool, anchor, _⟩, rewards, nullifiers, rfl, hn, rfl, hp, hanc,
      han, hr, hv, rfl⟩
    exact ⟨⟨definition, old, cs, pool, anchor, nullifiers, rewards⟩, rfl, rfl,
      ⟨hc, hp, hanc, han, hn, hr⟩, rfl, hv, rfl⟩
  · rintro ⟨⟨_, _, cs, pool, anchor, nullifiers, rewards⟩, rfl, rfl, ⟨hc, hp, hanc, han, hn, hr⟩,
      rfl, hv, rfl⟩
    exact ⟨cs, hc, ⟨pool, anchor, .ofSpent C nullifiers.reverse⟩, rewards, nullifiers, rfl, hn, rfl,
      hp, hanc, han, hr, hv, rfl⟩

structure LegacySupplyV1.InRange (s : LegacySupplyV1) : Prop where
  genesisSupply : s.genesisSupply < 256 ^ 16
  cumulativeSecurityIssuance : s.cumulativeSecurityIssuance < 256 ^ 16
  cumulativeBurn : s.cumulativeBurn < 256 ^ 16
  currentTotalSupply : s.currentTotalSupply < 256 ^ 16
  circulatingSupply : s.circulatingSupply < 256 ^ 16
  lockedVestingSupply : s.lockedVestingSupply < 256 ^ 16
  stakedSupply : s.stakedSupply < 256 ^ 16
  securityReserveBalance : s.securityReserveBalance < 256 ^ 16
  lastSettledEpoch : s.lastSettledEpoch < 256 ^ 8

/-- The counters of the first schema, completed as its reader does. -/
def LegacySupplyV1.CompletedBy (s : LegacySupplyV1) (bps : Nat) (supply : NativeSupply) : Prop :=
  ∃ window, legacyWindow s.genesisSupply s.currentTotalSupply s.lastSettledEpoch bps = .ok window ∧
    supply.toNativeSupplyFields = s.fields window

theorem NativeSupply.decodeLegacyV1_eq_ok {bps : Nat} :
    (NativeSupply.decodeLegacyV1 bps).run input = .ok (supply, rest) ↔
      ∃ s : LegacySupplyV1, s.InRange ∧ s.CompletedBy bps supply ∧ input = s.bytes ++ rest := by
  simp only [NativeSupply.decodeLegacyV1, Decode.inversion, NativeSupply.new_eq_ok, existsAndEq]
  constructor
  · rintro ⟨genesis, h1, issuance, burn, current, circulating, locked, staked, reserve, epoch, rfl,
      h2, h3, h4, h5, h6, h7, h8, h9, hw⟩
    exact ⟨⟨genesis, issuance, burn, current, circulating, locked, staked, reserve, epoch⟩,
      ⟨h1, h2, h3, h4, h5, h6, h7, h8, h9⟩, hw, by simp [LegacySupplyV1.bytes]⟩
  · rintro ⟨s, ⟨h1, h2, h3, h4, h5, h6, h7, h8, h9⟩, hw, rfl⟩
    exact ⟨_, h1, _, _, _, _, _, _, _, _, by simp [LegacySupplyV1.bytes], h2, h3, h4, h5, h6,
      h7, h8, h9, hw⟩

theorem CashLedger.decodeLegacyV1_eq_ok :
    (decodeLegacyV1 C).run input = .ok (l, rest) ↔
      ∃ (legacy : LegacyCashLedger LegacySupplyV1) (supply : NativeSupply),
        legacy.definition.InRange ∧ legacy.supply.InRange ∧ legacy.Readable ∧
        legacy.supply.CompletedBy legacy.definition.maximumOrdinaryAnnualIssuanceBps supply ∧
        l = legacy.migrated C supply ∧ l.verifyInvariants C = .ok () ∧
        input = legacy.bytes LegacySupplyV1.bytes ++ rest := by
  simp only [decodeLegacyV1, run_bind_eq_ok, NativeAssetDefinition.codes.read_eq_ok,
    NativeSupply.decodeLegacyV1_eq_ok, LegacyCashLedger.bytes, append_assoc]
  constructor
  · rintro ⟨definition, _, ⟨hd, rfl⟩, supply, _, ⟨old, hold, hc, rfl⟩, hre⟩
    obtain ⟨legacy, rfl, rfl, hr, hl, hv, rfl⟩ := (decodeLegacyRest_eq_ok old).1 hre
    exact ⟨legacy, supply, hd, hold, hr, hc, hl, hv, rfl⟩
  · rintro ⟨legacy, supply, hd, hold, hr, hc, hl, hv, rfl⟩
    exact ⟨_, _, ⟨hd, rfl⟩, supply, _, ⟨legacy.supply, hold, hc, rfl⟩,
      (decodeLegacyRest_eq_ok legacy.supply).2 ⟨legacy, rfl, rfl, hr, hl, hv, rfl⟩⟩

theorem CashLedger.decodeLegacyV2_eq_ok :
    (decodeLegacyV2 C).run input = .ok (l, rest) ↔
      ∃ legacy : LegacyCashLedger NativeSupply, legacy.definition.InRange ∧ legacy.supply.InRange ∧
        legacy.Readable ∧ l = legacy.migrated C legacy.supply ∧ l.verifyInvariants C = .ok () ∧
        input = legacy.bytes NativeSupply.bytes ++ rest := by
  simp only [decodeLegacyV2, run_bind_eq_ok, NativeAssetDefinition.codes.read_eq_ok,
    NativeSupply.codes.read_eq_ok, LegacyCashLedger.bytes, append_assoc]
  constructor
  · rintro ⟨definition, _, ⟨hd, rfl⟩, supply, _, ⟨hs, rfl⟩, hre⟩
    obtain ⟨legacy, rfl, rfl, hr, hl, hv, rfl⟩ := (decodeLegacyRest_eq_ok supply).1 hre
    exact ⟨legacy, hd, hs, hr, hl, hv, rfl⟩
  · rintro ⟨legacy, hd, hs, hr, hl, hv, rfl⟩
    exact ⟨_, _, ⟨hd, rfl⟩, _, _, ⟨hs, rfl⟩, (decodeLegacyRest_eq_ok legacy.supply).2
        ⟨legacy, rfl, rfl, hr, hl, hv, rfl⟩⟩

end Accepted

end ActiveChain
