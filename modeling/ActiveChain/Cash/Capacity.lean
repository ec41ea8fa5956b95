import ActiveChain.Cash.Intents
import ActiveChain.Wire

/-!
# Prepaid capacity (`cash-kernel::economics`)

A reservation deposits the fee of its whole quote.  Settling it charges the units used and refunds
the rest, once.

* `CapacityReservation.new`, `CapacityReservation.settle` — the constructor and the settlement.
* `CapacityReservation.codes`, `CapacitySettlement.codes` — the bytes of both.
-/

namespace ActiveChain

open Except List

open Encoder (writeInt writeMany)
open Decode (readInt readBool)

/-! ## Records of fixed width -/

/-- The values of a record in order, each with its width in bytes. -/
abbrev Fields := List (Nat × Nat)

def Fields.write : Write Fields := writeMany fun field _ e => writeInt field.1 field.2 e

def Fields.bytes (fields : Fields) : List UInt8 :=
  fields.flatMap fun field => beBytes field.1 field.2

def Fields.Fit (fields : Fields) : Prop := ∀ field ∈ fields, field.2 < 256 ^ field.1

theorem Fields.fit_nil : Fields.Fit [] ↔ True := by simp [Fields.Fit]

theorem Fields.fit_cons {field : Nat × Nat} {fields : Fields} :
    Fields.Fit (field :: fields) ↔ field.2 < 256 ^ field.1 ∧ fields.Fit := forall_mem_cons

open Fields

theorem Fields.write_eq_ok {maximum : Nat} {e e' : Encoder maximum} (fields : Fields) :
    write fields e = .ok e' ↔ e'.bytes = e.bytes ++ fields.bytes := by
  induction fields generalizing e with
  | nil => simp [write, bytes, writeMany, Encoder.ext_iff, eq_comm]
  | cons field fields ih =>
    unfold write writeMany
    rw [bind_eq_ok]
    simp only [writeInt, Encoder.writeRaw_eq_ok]
    exact (exists_congr fun _ => and_congr_right fun _ => ih).trans Encoder.exists_between

/-- The value is encoded, and decoded to itself. -/
def RoundTrips {α : Type} (T : CanonicalCodec α) (value : α) : Prop :=
  ∃ input, T.encodeEnvelope value = .ok input ∧ T.decodeEnvelope input = .ok value

theorem roundTrips_iff_fits {α : Type} {T : CanonicalCodec α} {Valid : α → Prop}
    {bytes : α → List UInt8} (h : Codes T.encode T.decode Valid bytes)
    (hmax : T.maxEncodedLen ≤ maxBodyLength) {v : α} (hv : Valid v) :
    RoundTrips T v ↔ (bytes v).length ≤ T.maxEncodedLen := by
  constructor
  · rintro ⟨input, he, -⟩
    exact ((h.encodeEnvelope_eq_ok hmax hv).1 he).1
  · intro hl
    exact ⟨_, (h.encodeEnvelope_eq_ok hmax hv).2 ⟨hl, rfl⟩,
      (h.decodeEnvelope_eq_ok hmax).2 ⟨hv, hl, rfl⟩⟩

theorem roundTrips_iff {α : Type} {T : CanonicalCodec α} {Valid : α → Prop} {bytes : α → List UInt8}
    (h : Codes T.encode T.decode Valid bytes) (hmax : T.maxEncodedLen ≤ maxBodyLength)
    (hl : ∀ value, (bytes value).length ≤ T.maxEncodedLen) {value : α} :
    RoundTrips T value ↔ Valid value := by
  refine ⟨?_, fun hv => (roundTrips_iff_fits h hmax hv).2 (hl value)⟩
  rintro ⟨input, -, hd⟩
  exact ((h.decodeEnvelope_eq_ok hmax).1 hd).1

/-! ## Reservations and settlements -/

@[ext] structure FeeQuote where
  base : Nat
  resourceUnits : Nat
  resourcePrice : Nat
  congestionPrice : Nat
deriving DecidableEq

def feeTotal (base units price congestion : Nat) : Option Nat := do
  let resource ← checkedMul 128 units price
  checkedAdd 128 (← checkedAdd 128 base resource) congestion

def FeeQuote.total (q : FeeQuote) : Option Nat :=
  feeTotal q.base q.resourceUnits q.resourcePrice q.congestionPrice

/-- The checks of `CapacityReservationV1::new`. -/
def ReservationChecked (id : Digest384) (payer : PrincipalId) (quote : FeeQuote)
    (deposit expiresHeight : Nat) : Prop :=
  quote.total = some deposit ∧ id ≠ Digest384.zero ∧ payer ≠ Digest384.zero ∧
    quote.resourceUnits ≠ 0 ∧ quote.resourcePrice ≠ 0 ∧ deposit ≠ 0 ∧ expiresHeight ≠ 0
deriving Decidable

@[ext] structure CapacityReservation where
  id : Digest384
  payer : PrincipalId
  quote : FeeQuote
  deposit : Nat
  expiresHeight : Nat
  settled : Bool
  checked : ReservationChecked id payer quote deposit expiresHeight
deriving DecidableEq

@[ext] structure CapacitySettlement where
  reservation : Digest384
  payer : PrincipalId
  usedUnits : Nat
  deposit : Nat
  charged : Nat
  refund : Nat
  settledHeight : Nat
deriving DecidableEq

namespace CapacityReservation

def new (id : Digest384) (payer : PrincipalId) (quote : FeeQuote) (deposit expiresHeight : Nat) :
    Except EconomicsError CapacityReservation :=
  if h : ReservationChecked id payer quote deposit expiresHeight then
    .ok ⟨id, payer, quote, deposit, expiresHeight, false, h⟩
  else .error .invalidCapacityReservation

/-- With the reservation it leaves. -/
def settle (r : CapacityReservation) (usedUnits height : Nat) :
    Except EconomicsError (CapacitySettlement × CapacityReservation) := do
  rejectIf (r.settled = true) .alreadySettled
  rejectIf (height > r.expiresHeight) .expired
  rejectIf (usedUnits > r.quote.resourceUnits) .capacityExceeded
  let charged ← okOr (feeTotal r.quote.base usedUnits r.quote.resourcePrice r.quote.congestionPrice)
    .invalidCapacityReservation
  let refund ← okOr (checkedSub r.deposit charged) .invalidCapacityReservation
  return (⟨r.id, r.payer, usedUnits, r.deposit, charged, refund, height⟩,
    { r with settled := true })

def fields (r : CapacityReservation) : Fields :=
  [(48, r.id), (48, r.payer), (16, r.quote.base), (8, r.quote.resourceUnits),
    (16, r.quote.resourcePrice), (16, r.quote.congestionPrice), (16, r.deposit),
    (8, r.expiresHeight),
    (1, r.settled.toNat)]

def decode : Decode CapacityReservation := do
  let id ← readInt 48
  let payer ← readInt 48
  let base ← readInt 16
  let resourceUnits ← readInt 8
  let resourcePrice ← readInt 16
  let congestionPrice ← readInt 16
  let deposit ← readInt 16
  let expiresHeight ← readInt 8
  let settled ← readBool
  let reservation ← Decode.check (orInvalid (new id payer
    ⟨base, resourceUnits, resourcePrice, congestionPrice⟩ deposit expiresHeight)
    "invalid capacity reservation")
  return { reservation with settled }

def codec : CanonicalCodec CapacityReservation where
  typeTag := 0x015D
  schemaVersion := 1
  maxEncodedLen := 48 * 2 + 16 * 4 + 8 * 2 + 1
  maxFits := by decide
  encode := fun value _ e => value.fields.write e
  decode := decode

theorem new_eq_ok {id : Digest384} {payer : PrincipalId} {quote : FeeQuote}
    {deposit expiresHeight : Nat} {r : CapacityReservation} :
    new id payer quote deposit expiresHeight = .ok r ↔ r.id = id ∧ r.payer = payer ∧
      r.quote = quote ∧ r.deposit = deposit ∧ r.expiresHeight = expiresHeight ∧
      r.settled = false := by
  constructor
  · intro h
    unfold new at h
    split_ifs at h
    cases h
    simp
  · rintro ⟨rfl, rfl, rfl, rfl, rfl, hs⟩
    rw [new, dif_pos r.checked, ← hs]

theorem codes : Codes codec.encode codec.decode (·.fields.Fit) (·.fields.bytes) where
  write_eq_ok {r _ _ _} _ := r.fields.write_eq_ok
  read_eq_ok := by
    intro input rest r
    simp only [codec, decode, Decode.inversion, codes_bool.read_eq_ok, new_eq_ok, FeeQuote.ext_iff,
      existsAndEq]
    simp only [fields, fit_cons, fit_nil, bytes, flatMap_cons,
      flatMap_nil, nil_append, append_assoc, and_true]
    constructor
    · rintro ⟨settled, x, hid, rfl, hp, hb, hu, hpr, hc, hd, hexpires, -, rfl⟩
      exact ⟨⟨hid, hp, hb, hu, hpr, hc, hd, hexpires, settled.toNat_lt.trans (by decide)⟩, rfl⟩
    · rintro ⟨⟨hid, hp, hb, hu, hpr, hc, hd, hexpires, -⟩, rfl⟩
      exact ⟨r.settled, { r with settled := false }, hid, rfl, hp, hb, hu, hpr,
        hc, hd, hexpires, rfl, rfl⟩

end CapacityReservation

namespace CapacitySettlement

def fields (s : CapacitySettlement) : Fields :=
  [(48, s.reservation), (48, s.payer), (8, s.usedUnits), (16, s.deposit), (16, s.charged),
    (16, s.refund), (8, s.settledHeight)]

/-- The check of `CapacitySettlementV1::decode`. -/
def Accepted (s : CapacitySettlement) : Prop :=
  s.reservation ≠ Digest384.zero ∧ s.payer ≠ Digest384.zero ∧ s.deposit ≠ 0 ∧
    s.settledHeight ≠ 0 ∧ checkedAdd 128 s.charged s.refund = some s.deposit
deriving Decidable

def decode : Decode CapacitySettlement := do
  let reservation ← readInt 48
  let payer ← readInt 48
  let usedUnits ← readInt 8
  let deposit ← readInt 16
  let charged ← readInt 16
  let refund ← readInt 16
  let settledHeight ← readInt 8
  let value := ⟨reservation, payer, usedUnits, deposit, charged, refund, settledHeight⟩
  Decode.check (rejectIf (¬ value.Accepted) (.error (.invalidValue "invalid capacity settlement")))
  return value

def codec : CanonicalCodec CapacitySettlement where
  typeTag := 0x015E
  schemaVersion := 1
  maxEncodedLen := 48 * 2 + 8 * 2 + 16 * 3
  maxFits := by decide
  encode := fun value _ e => value.fields.write e
  decode := decode

theorem codes : Codes codec.encode codec.decode (fun s => s.fields.Fit ∧ s.Accepted)
    (·.fields.bytes) where
  write_eq_ok {s _ _ _} _ := s.fields.write_eq_ok
  read_eq_ok := by
    simp only [codec, decode, Decode.inversion, inversion, CapacitySettlement.ext_iff, existsAndEq]
    simp only [fields, fit_cons, fit_nil, bytes, flatMap_cons,
      flatMap_nil, nil_append, append_assoc, and_true]
    tauto

end CapacitySettlement

open CapacityReservation

section Settled

variable {r r' : CapacityReservation} {s : CapacitySettlement} {usedUnits height : Nat}

/-- **Settlements of a valid reservation**: the charge and the refund make up the deposit, nothing
is settled twice, the reservation left is decoded to itself, and the settlement exactly if it was
made above height zero. -/
theorem capacity_settled_once (hrange : r.fields.Fit) (hheight : height < 2 ^ 64)
    (h : r.settle usedUnits height = .ok (s, r')) :
    s.charged + s.refund = r.deposit ∧
    (∀ usedUnits height, r'.settle usedUnits height = .error .alreadySettled) ∧
    RoundTrips CapacityReservation.codec r' ∧
    (RoundTrips CapacitySettlement.codec s ↔ height ≠ 0) := by
  simp only [settle, inversion, Prod.mk.injEq, gt_iff_lt, not_lt] at h
  obtain ⟨-, -, hu, charged, -, refund, hre, rfl, rfl⟩ := h
  obtain ⟨-, hid, hp, -, -, hd, -⟩ := r.checked
  rw [roundTrips_iff codes (by decide) fun _ => by
      simp [fields, bytes, codec],
    roundTrips_iff CapacitySettlement.codes (by decide) fun _ => by
      simp [CapacitySettlement.fields, bytes, CapacitySettlement.codec]]
  simp only [fields, CapacitySettlement.fields, fit_cons, fit_nil,
    CapacitySettlement.Accepted, checkedAdd_eq_some, and_true] at hrange ⊢
  obtain ⟨hrid, hrp, hb, hru, hpr, hc, hr, hexpires, -⟩ := hrange
  refine ⟨by omega, fun _ _ => rfl, ⟨hrid, hrp, hb, hru, hpr, hc, hr,
    hexpires, by decide⟩, fun hs => hs.2.2.2.2.1, fun hz => ?_⟩
  exact ⟨⟨hrid, hrp, by omega, hr, by omega, by omega, by omega⟩, hid, hp, hd,
    hz, by omega, by omega⟩

end Settled

namespace Prepaid

def reservation : CapacityReservation := ⟨1, 2, ⟨1, 2, 3, 0⟩, 7, 10, false, by decide⟩

/-- **A settlement at height zero is accepted, and not decoded.** -/
theorem settled_at_genesis : ∃ s r', reservation.fields.Fit ∧
    reservation.settle 1 0 = .ok (s, r') ∧ ¬ RoundTrips CapacitySettlement.codec s := by
  refine ⟨_, _, by simp [reservation, fields, Fields.Fit], rfl, ?_⟩
  rintro ⟨input, -, hd⟩
  exact ((CapacitySettlement.codes.decodeEnvelope_eq_ok (by decide)).1 hd).1.2.2.2.2.1 rfl

theorem settled_above_genesis : ∃ s r', reservation.settle 1 1 = .ok (s, r') ∧ s.charged = 4 ∧
    s.refund = 3 ∧ RoundTrips CapacityReservation.codec r' ∧
    RoundTrips CapacitySettlement.codec s := by
  have hse : reservation.settle 1 1 =
    .ok (⟨1, 2, 1, 7, 4, 3, 1⟩, { reservation with settled := true }) := rfl
  obtain ⟨-, -, hr, hs⟩ := capacity_settled_once
    (by simp [reservation, fields, Fields.Fit]) (by decide) hse
  exact ⟨_, _, hse, rfl, rfl, hr, hs.2 (by decide)⟩

end Prepaid

end ActiveChain
