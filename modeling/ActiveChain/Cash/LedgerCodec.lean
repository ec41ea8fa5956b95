import ActiveChain.Wire
import ActiveChain.Cash.AuthenticatedCodec

/-!
# The bytes of the cash ledger (`cash-kernel::transition`)

The ledger is written field by field.  Its reader rebuilds every part with the constructor of the
part and runs the final check of the operations on the whole.

* `NativeAssetDefinition.codes`, `NativeSupply.codes`, `CoinCellSet.codes`,
  `ShieldedCashState.codes` — one code for each part.
* `CashLedger.codes` — **one code for each ledger, and only ledgers that pass the check are read.**
* `CashLedger.length_bytes_le` — every ledger fits into the bound of its envelope.
-/

namespace ActiveChain

open Digest384 Except List

open Encoder (writeInt writeBytes writeList appends)
open Decode (readInt readBytes readList check)

/-! ## The asset -/

/-- The amounts are `u128`. -/
def NativeAssetDefinition.new (chainId : ChainId) (symbol : List Nat)
    (decimals genesisSupply maximumOrdinaryAnnualIssuanceBps : Nat)
    (issuancePolicyHash burnPolicyHash rewardPolicyHash : Digest384) :
    MoneyM NativeAssetDefinition :=
  if hsymbol : symbol ≠ [] ∧ symbol.length ≤ maxSymbolLength ∧
    ∀ byte ∈ symbol, isSymbolByte byte then
    if hdecimals : decimals ≤ 38 then
      if hbps : maximumOrdinaryAnnualIssuanceBps ≤ 10000 then
        if hsupply : genesisSupply ≠ 0 ∧ genesisSupply < 2 ^ 128 then
          if hhashes : chainId ≠ zero ∧ issuancePolicyHash ≠ zero ∧
              burnPolicyHash ≠ zero ∧ rewardPolicyHash ≠ zero then
            .ok ⟨chainId, symbol, decimals, genesisSupply, maximumOrdinaryAnnualIssuanceBps,
              issuancePolicyHash, burnPolicyHash, rewardPolicyHash, hsymbol, hdecimals,
              hbps, hsupply,
              hhashes⟩
          else .error .invalidInputs
        else .error .zeroGenesisSupply
      else .error .invalidEconomicsTransition
    else .error .invalidDecimals
  else .error .invalidSymbol

open NativeAssetDefinition

namespace NativeAssetDefinition

theorem new_eq_ok {chainId : ChainId} {symbol : List Nat} {decimals supply bps : Nat}
    {issuance burn reward : Digest384} {d : NativeAssetDefinition} :
    new chainId symbol decimals supply bps issuance burn reward = .ok d ↔
      d.chainId = chainId ∧ d.symbol = symbol ∧ d.decimals = decimals ∧ d.genesisSupply = supply ∧
        d.maximumOrdinaryAnnualIssuanceBps = bps ∧ d.issuancePolicyHash = issuance ∧
        d.burnPolicyHash = burn ∧ d.rewardPolicyHash = reward := by
  constructor
  · intro h
    unfold new at h
    split_ifs at h
    cases h
    simp
  · rintro ⟨rfl, rfl, rfl, rfl, rfl, rfl, rfl, rfl⟩
    unfold new
    rw [dif_pos d.symbolChecked, dif_pos d.decimalsChecked, dif_pos d.bpsChecked,
      dif_pos d.supplyChecked, dif_pos d.hashesChecked]

def encode : Write NativeAssetDefinition := fun d _ e => do
  let e ← writeInt 48 d.chainId e
  let e ← writeBytes maxSymbolLength (d.symbol.map UInt8.ofNat) e
  let e ← writeInt 1 d.decimals e
  let e ← writeInt 16 d.genesisSupply e
  let e ← writeInt 2 d.maximumOrdinaryAnnualIssuanceBps e
  let e ← writeInt 48 d.issuancePolicyHash e
  let e ← writeInt 48 d.burnPolicyHash e
  writeInt 48 d.rewardPolicyHash e

def decode : Decode NativeAssetDefinition := do
  let chainId ← readInt 48
  let symbol ← readBytes maxSymbolLength
  let decimals ← readInt 1
  let genesisSupply ← readInt 16
  let maximumOrdinaryAnnualIssuanceBps ← readInt 2
  let issuancePolicyHash ← readInt 48
  let burnPolicyHash ← readInt 48
  let rewardPolicyHash ← readInt 48
  check (orInvalid (NativeAssetDefinition.new chainId (symbol.map UInt8.toNat) decimals
    genesisSupply maximumOrdinaryAnnualIssuanceBps issuancePolicyHash burnPolicyHash
    rewardPolicyHash) "invalid native asset definition")

variable (d : NativeAssetDefinition)

/-- Digests of 48 bytes. -/
structure InRange : Prop where
  chainId : d.chainId < 256 ^ 48
  issuancePolicyHash : d.issuancePolicyHash < 256 ^ 48
  burnPolicyHash : d.burnPolicyHash < 256 ^ 48
  rewardPolicyHash : d.rewardPolicyHash < 256 ^ 48

def bytes : List UInt8 :=
  beBytes 48 d.chainId ++ ((lebBytes d.symbol.length ++ d.symbol.map UInt8.ofNat) ++
    (beBytes 1 d.decimals ++ (beBytes 16 d.genesisSupply ++
      (beBytes 2 d.maximumOrdinaryAnnualIssuanceBps ++ (beBytes 48 d.issuancePolicyHash ++
        (beBytes 48 d.burnPolicyHash ++ beBytes 48 d.rewardPolicyHash))))))

theorem symbol_eq_iff {d : NativeAssetDefinition} {symbol : List UInt8} :
    d.symbol = symbol.map UInt8.toNat ↔ symbol = d.symbol.map UInt8.ofNat := by
  have hs : ∀ byte ∈ d.symbol, byte < 256 := by
    intro byte hmem
    have hb := d.symbolChecked.2.2 byte hmem
    simp only [isSymbolByte, Bool.or_eq_true, Bool.and_eq_true, decide_eq_true_eq] at hb
    omega
  constructor
  · intro h
    rw [h, map_map]
    exact (map_id'' (fun byte => UInt8.ofNat_toNat) symbol).symm
  · rintro rfl
    rw [map_map]
    symm
    refine (map_congr_left fun byte hmem => ?_).trans (List.map_id _)
    exact Nat.mod_eq_of_lt (hs byte hmem)

theorem codes_symbol : Codes (writeBytes maxSymbolLength) (readBytes maxSymbolLength)
    (·.length ≤ maxSymbolLength) (fun symbol => lebBytes symbol.length ++ symbol) :=
  codes_bytes (by decide)

theorem codes : Codes encode decode InRange bytes where
  write_eq_ok := by
    intro d maximum e e' _
    have hl : (d.symbol.map UInt8.ofNat).length ≤ maxSymbolLength := by
      rw [length_map]
      exact d.symbolChecked.2.1
    simp only [encode, appends, codes_symbol.write_eq_ok hl, length_map]
    rfl
  read_eq_ok := by
    intro input rest d
    simp only [decode, Decode.inversion, codes_symbol.read_eq_ok, new_eq_ok, symbol_eq_iff,
      existsAndEq]
    have hd : d.decimals < 256 ^ 1 := lt_of_le_of_lt d.decimalsChecked (by decide)
    have hbps : d.maximumOrdinaryAnnualIssuanceBps < 256 ^ 2 :=
      lt_of_le_of_lt d.bpsChecked (by decide)
    constructor
    · rintro ⟨hc, hi, -, -, -, -, his, hb, hr⟩
      exact ⟨⟨hc, his, hb, hr⟩,
        by simpa [bytes] using hi⟩
    · rintro ⟨h, hi⟩
      exact ⟨h.chainId, by simpa [bytes] using hi,
        by rw [length_map]; exact d.symbolChecked.2.1, hd, d.supplyChecked.2, hbps,
        h.issuancePolicyHash, h.burnPolicyHash, h.rewardPolicyHash⟩

theorem length_bytes_le : d.bytes.length ≤ 48 + 2 + maxSymbolLength + 1 + 16 + 2 + 48 * 3 := by
  have hs := d.symbolChecked.2.1
  have hw : lebWidth d.symbol.length ≤ 0 + 1 :=
    (lebWidth_le_iff 0).2 (lt_of_le_of_lt hs (by decide))
  simp only [bytes, length_append, length_beBytes, length_lebBytes, length_map]
  omega

end NativeAssetDefinition

/-! ## Supply -/

namespace NativeSupply

def encode : Write NativeSupply := fun s _ e => do
  let e ← writeInt 16 s.genesisSupply e
  let e ← writeInt 16 s.cumulativeSecurityIssuance e
  let e ← writeInt 16 s.cumulativeBurn e
  let e ← writeInt 16 s.currentTotalSupply e
  let e ← writeInt 16 s.circulatingSupply e
  let e ← writeInt 16 s.lockedVestingSupply e
  let e ← writeInt 16 s.stakedSupply e
  let e ← writeInt 16 s.securityReserveBalance e
  let e ← writeInt 8 s.lastSettledEpoch e
  let e ← writeInt 8 s.issuanceWindow e
  let e ← writeInt 16 s.issuanceWindowOpeningSupply e
  writeInt 16 s.issuanceInWindow e

def decode : Decode NativeSupply := do
  let genesisSupply ← readInt 16
  let cumulativeSecurityIssuance ← readInt 16
  let cumulativeBurn ← readInt 16
  let currentTotalSupply ← readInt 16
  let circulatingSupply ← readInt 16
  let lockedVestingSupply ← readInt 16
  let stakedSupply ← readInt 16
  let securityReserveBalance ← readInt 16
  let lastSettledEpoch ← readInt 8
  let issuanceWindow ← readInt 8
  let issuanceWindowOpeningSupply ← readInt 16
  let issuanceInWindow ← readInt 16
  check (orInvalid (NativeSupply.new ⟨genesisSupply, cumulativeSecurityIssuance, cumulativeBurn,
    currentTotalSupply, circulatingSupply, lockedVestingSupply, stakedSupply,
    securityReserveBalance,
    lastSettledEpoch, issuanceWindow, issuanceWindowOpeningSupply, issuanceInWindow⟩)
    "invalid native supply state")

variable (s : NativeSupply)

/-- Numbers that the machine types hold; the checks of the constructor bound the others. -/
structure InRange : Prop where
  lastSettledEpoch : s.lastSettledEpoch < 256 ^ 8
  issuanceWindowOpeningSupply : s.issuanceWindowOpeningSupply < 256 ^ 16
  issuanceInWindow : s.issuanceInWindow < 256 ^ 16

def bytes : List UInt8 :=
  beBytes 16 s.genesisSupply ++ (beBytes 16 s.cumulativeSecurityIssuance ++
    (beBytes 16 s.cumulativeBurn ++ (beBytes 16 s.currentTotalSupply ++
      (beBytes 16 s.circulatingSupply ++ (beBytes 16 s.lockedVestingSupply ++
        (beBytes 16 s.stakedSupply ++ (beBytes 16 s.securityReserveBalance ++
          (beBytes 8 s.lastSettledEpoch ++ (beBytes 8 s.issuanceWindow ++
            (beBytes 16 s.issuanceWindowOpeningSupply ++ beBytes 16 s.issuanceInWindow))))))))))

theorem issuanceWindow_le : s.issuanceWindow ≤ s.lastSettledEpoch := by
  by_cases hz : s.lastSettledEpoch = 0
  · rw [(s.consistent.unsettled hz).1]
    exact Nat.zero_le _
  · rw [s.consistent.settled hz]
    exact (Nat.div_le_self _ _).trans (Nat.sub_le _ _)

theorem amounts_lt : s.genesisSupply < 256 ^ 16 ∧
    s.cumulativeSecurityIssuance < 256 ^ 16 ∧ s.cumulativeBurn < 256 ^ 16 ∧
    s.currentTotalSupply < 256 ^ 16 ∧ s.circulatingSupply < 256 ^ 16 ∧
    s.lockedVestingSupply < 256 ^ 16 ∧ s.stakedSupply < 256 ^ 16 ∧
    s.securityReserveBalance < 256 ^ 16 := by
  have hf := s.consistent.fits
  have he := s.consistent.equation
  have hp := s.consistent.partition
  refine ⟨?_, ?_, ?_, ?_, ?_, ?_, ?_, ?_⟩ <;> omega

theorem codes : Codes encode decode InRange bytes where
  write_eq_ok := by
    intro s maximum e e' _
    simp only [encode, appends]
    rfl
  read_eq_ok := by
    intro input rest s
    simp only [decode, Decode.inversion, new_eq_ok, NativeSupplyFields.ext_iff, existsAndEq]
    obtain ⟨h1, h2, h3, h4, h5, h6, h7, h8⟩ := s.amounts_lt
    constructor
    · rintro ⟨-, hi, -, -, -, -, -, -, -, he, -, hopening, his⟩
      exact ⟨⟨he, hopening, his⟩, by simpa [bytes] using hi⟩
    · rintro ⟨h, hi⟩
      exact ⟨h1, by simpa [bytes] using hi, h2, h3, h4, h5, h6, h7, h8,
        h.lastSettledEpoch, lt_of_le_of_lt s.issuanceWindow_le h.lastSettledEpoch,
        h.issuanceWindowOpeningSupply, h.issuanceInWindow⟩

theorem length_bytes : s.bytes.length = 16 * 10 + 8 * 2 := by
  simp [bytes]

end NativeSupply

/-! ## Cells -/

def writeCoinCellRecord : Write CoinCellRecord := fun record _ e => do
  let e ← writeInt 48 record.1 e
  let e ← writeInt 48 record.2.origin.transitionId e
  let e ← writeInt 2 record.2.origin.outputIndex e
  let e ← writeInt 48 record.2.owner e
  let e ← writeInt 16 record.2.amount e
  writeInt 8 record.2.creationHeight e

/-- What a cell says besides its amount, in machine numbers. -/
structure CoinCell.LabelsInRange (cell : CoinCell) : Prop where
  transitionId : cell.origin.transitionId < 256 ^ 48
  outputIndex : cell.origin.outputIndex < 256 ^ 2
  owner : cell.owner < 256 ^ 48
  creationHeight : cell.creationHeight < 256 ^ 8

structure RecordInRange (record : CoinCellRecord) : Prop where
  id : record.1 < 256 ^ 48
  labels : record.2.LabelsInRange
  amount : record.2.amount < 256 ^ 16

def recordBytes (record : CoinCellRecord) : List UInt8 :=
  beBytes 48 record.1 ++ (beBytes 48 record.2.origin.transitionId ++
    (beBytes 2 record.2.origin.outputIndex ++ (beBytes 48 record.2.owner ++
      (beBytes 16 record.2.amount ++ beBytes 8 record.2.creationHeight))))

theorem codes_record : Codes writeCoinCellRecord readCoinCellRecord RecordInRange recordBytes where
  write_eq_ok := by
    intro r maximum e e' _
    simp only [writeCoinCellRecord, appends]
    rfl
  read_eq_ok := by
    rintro input rest ⟨id, cell⟩
    simp only [readCoinCellRecord, readDigest, Decode.readU16, Decode.inversion, CoinCell.new_eq_ok,
      CoinCellOrigin.ext_iff, Prod.mk.injEq, existsAndEq]
    constructor
    · rintro ⟨hid, hi, ht, hin, ho, ham, hh⟩
      exact ⟨⟨hid, ⟨ht, hin, ho, hh⟩, ham⟩,
        by simpa [recordBytes] using hi⟩
    · rintro ⟨h, hi⟩
      exact ⟨h.id, by simpa [recordBytes] using hi, h.labels.transitionId,
        h.labels.outputIndex, h.labels.owner, h.amount, h.labels.creationHeight⟩

namespace CoinCellSet

def encode : Write CoinCellSet := fun set _ e =>
  writeList maxCoinCells writeCoinCellRecord set.cells.entries e

def decode : Decode CoinCellSet := do
  let cells ← readList maxCoinCells readCoinCellRecord
  check (orInvalid (CoinCellSet.new cells) "coin cells are not strictly ordered")

variable (set : CoinCellSet)

def InRange : Prop := ∀ record ∈ set.cells.entries, RecordInRange record

def bytes : List UInt8 := listBytes recordBytes set.cells.entries

theorem codes_records : Codes (writeList maxCoinCells writeCoinCellRecord)
    (readList maxCoinCells readCoinCellRecord)
    (fun rs => rs.length ≤ maxCoinCells ∧ ∀ r ∈ rs, RecordInRange r) (listBytes recordBytes) :=
  codes_record.list (by decide)

theorem codes : Codes encode decode InRange bytes where
  write_eq_ok := by
    intro set maximum e e' h
    exact codes_records.write_eq_ok ⟨set.bounded, h⟩
  read_eq_ok := by
    intro input rest set
    simp only [decode, Decode.inversion, codes_records.read_eq_ok, new_eq_ok, existsAndEq]
    constructor
    · rintro ⟨-, h, hi⟩
      exact ⟨h, hi⟩
    · rintro ⟨h, hi⟩
      exact ⟨set.bounded, h, hi⟩

theorem length_bytes_le : set.bytes.length ≤ 2 + maxCoinCells * (48 + (50 + 48 + 16 + 8)) :=
  length_listBytes_le 1 set.bounded (by decide) fun r _ => by simp [recordBytes]

end CoinCellSet

/-! ## The pool -/

namespace NullifierSet

def new (root : Digest384) (count : Nat) : Except PrivacyError NullifierSet := do
  rejectIf (root = zero) .invalidNullifierWitness
  return ⟨root, count⟩

def encode : Write NullifierSet := fun s _ e => do
  let e ← writeInt 48 s.root e
  writeInt 8 s.count e

def decode : Decode NullifierSet := do
  let root ← readInt 48
  let count ← readInt 8
  check (orInvalid (NullifierSet.new root count) "invalid privacy value")

/-- Machine numbers, with a root that stands for a commitment. -/
structure InRange (s : NullifierSet) : Prop where
  root : s.root < 256 ^ 48
  nonzero : s.root ≠ zero
  count : s.count < 256 ^ 8

def bytes (s : NullifierSet) : List UInt8 := beBytes 48 s.root ++ beBytes 8 s.count

theorem codes : Codes encode decode InRange bytes where
  write_eq_ok := by
    intro s maximum e e' _
    simp only [encode, appends]
    rfl
  read_eq_ok := by
    rintro input rest ⟨root, count⟩
    simp only [decode, NullifierSet.new, Decode.inversion, inversion, mk.injEq, existsAndEq]
    constructor
    · rintro ⟨hr, hi, hc, hn⟩
      exact ⟨⟨hr, hn, hc⟩, by simpa [bytes] using hi⟩
    · rintro ⟨h, hi⟩
      exact ⟨h.root, by simpa [bytes] using hi, h.count, h.nonzero⟩

end NullifierSet

namespace ShieldedCashState

def new (poolBalance : Nat) (anchor : Digest384) (nullifiers : NullifierSet) :
    Except PrivacyError ShieldedCashState := do
  rejectIf (poolBalance = 0 ∧ anchor ≠ zero) .wrongAnchor
  return ⟨poolBalance, anchor, nullifiers⟩

def encode : Write ShieldedCashState := fun s _ e => do
  let e ← writeInt 16 s.poolBalance e
  let e ← writeInt 48 s.anchor e
  s.nullifiers.encode e

def decode : Decode ShieldedCashState := do
  let poolBalance ← readInt 16
  let anchor ← readInt 48
  let nullifiers ← NullifierSet.decode
  check (orInvalid (ShieldedCashState.new poolBalance anchor nullifiers) "invalid privacy value")

/-- Machine numbers, and no anchor without a balance. -/
structure InRange (s : ShieldedCashState) : Prop where
  poolBalance : s.poolBalance < 256 ^ 16
  anchor : s.anchor < 256 ^ 48
  nullifiers : s.nullifiers.InRange
  anchored : s.poolBalance = 0 → s.anchor = zero

def bytes (s : ShieldedCashState) : List UInt8 :=
  beBytes 16 s.poolBalance ++ (beBytes 48 s.anchor ++ s.nullifiers.bytes)

theorem codes : Codes encode decode InRange bytes where
  write_eq_ok := by
    intro s maximum e e' h
    simp only [encode, appends, NullifierSet.codes.write_eq_ok h.nullifiers]
    rfl
  read_eq_ok := by
    rintro input rest ⟨poolBalance, anchor, nullifiers⟩
    simp only [decode, ShieldedCashState.new, Decode.inversion, NullifierSet.codes.read_eq_ok,
      inversion, not_and, mk.injEq, existsAndEq]
    constructor
    · rintro ⟨hp, hi, hanc, hn, han⟩
      exact ⟨⟨hp, hanc, hn, han⟩,
        by simpa [bytes] using hi⟩
    · rintro ⟨h, hi⟩
      exact ⟨h.poolBalance, by simpa [bytes] using hi, h.anchor,
        h.nullifiers, h.anchored⟩

theorem length_bytes (s : ShieldedCashState) : s.bytes.length = 16 + 48 + (48 + 8) := by
  simp [bytes, NullifierSet.bytes]

end ShieldedCashState

/-! ## The ledger -/

namespace CashLedger

def encode : Write CashLedger := fun l _ e => do
  let e ← l.definition.encode e
  let e ← l.supply.encode e
  let e ← l.cells.encode e
  let e ← l.shielded.encode e
  let e ← writeInt 48 l.redeemedRewardRoot e
  writeInt 8 l.redeemedRewardCount e

def decode (C : Crypto) : Decode CashLedger := do
  let definition ← NativeAssetDefinition.decode
  let supply ← NativeSupply.decode
  let cells ← CoinCellSet.decode
  let shielded ← ShieldedCashState.decode
  let redeemedRewardRoot ← readInt 48
  let redeemedRewardCount ← readInt 8
  let ledger : CashLedger := ⟨definition, supply, cells, shielded, redeemedRewardRoot,
    redeemedRewardCount⟩
  check (orInvalid (ledger.verifyInvariants C) "invalid cash ledger")
  return ledger

def codec (C : Crypto) : CanonicalCodec CashLedger where
  typeTag := 0x0102
  schemaVersion := 3
  maxEncodedLen := (48 + 2 + maxSymbolLength + 1 + 16 + 2 + 48 * 3) + (16 * 10 + 8 * 2) +
    (2 + maxCoinCells * (48 + (50 + 48 + 16 + 8))) + (16 + 48 + (48 + 8)) + 48 + 8
  maxFits := by decide
  encode := encode
  decode := decode C

structure InRange (l : CashLedger) : Prop where
  definition : l.definition.InRange
  supply : l.supply.InRange
  cells : l.cells.InRange
  shielded : l.shielded.InRange
  redeemedRewardRoot : l.redeemedRewardRoot < 256 ^ 48
  redeemedRewardCount : l.redeemedRewardCount < 256 ^ 8

def bytes (l : CashLedger) : List UInt8 :=
  l.definition.bytes ++ (l.supply.bytes ++ (l.cells.bytes ++ (l.shielded.bytes ++
    (beBytes 48 l.redeemedRewardRoot ++ beBytes 8 l.redeemedRewardCount))))

theorem codes (C : Crypto) :
    Codes encode (decode C) (fun l => l.InRange ∧ l.verifyInvariants C = .ok ()) bytes where
  write_eq_ok := by
    rintro l maximum e e' ⟨h, -⟩
    simp only [encode, appends, NativeAssetDefinition.codes.write_eq_ok h.definition,
      NativeSupply.codes.write_eq_ok h.supply, CoinCellSet.codes.write_eq_ok h.cells,
      ShieldedCashState.codes.write_eq_ok h.shielded]
    rfl
  read_eq_ok := by
    rintro input rest ⟨definition, supply, cs, shielded, root, count⟩
    simp only [decode, Decode.inversion, NativeAssetDefinition.codes.read_eq_ok,
      NativeSupply.codes.read_eq_ok, CoinCellSet.codes.read_eq_ok,
      ShieldedCashState.codes.read_eq_ok, inversion, mk.injEq, existsAndEq]
    constructor
    · rintro ⟨hd, hi, hsu, hc, hs, hr, hco, hv⟩
      exact ⟨⟨hd, hsu, hc, hs, hr, hco⟩, hv,
        by simpa [bytes] using hi⟩
    · rintro ⟨h, hv, hi⟩
      exact ⟨h.definition, by simpa [bytes] using hi, h.supply, h.cells,
        h.shielded, h.redeemedRewardRoot, h.redeemedRewardCount, hv⟩

theorem length_bytes_le (C : Crypto) (l : CashLedger) :
    l.bytes.length ≤ (codec C).maxEncodedLen := by
  have hd := l.definition.length_bytes_le
  have hc := l.cells.length_bytes_le
  simp only [bytes, codec, length_append, length_beBytes, NativeSupply.length_bytes,
    ShieldedCashState.length_bytes]
  omega

end CashLedger

end ActiveChain
