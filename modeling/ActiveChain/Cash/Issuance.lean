import ActiveChain.Cash.History

/-!
# Issuance stays within its windows

Epochs are settled one by one, each with or without issuance, and 365 of them form a window.  The
ledger keeps three counters for the window it is in; two operations move them on, while burns change
the supply in between.  The log of a run says what was really issued.

* `Settlement`, `CashState.settlements` — the accepted settlements of a run, in order.
* `issuedIn`, `openingSupply` — what a log issues in a window, and the supply when it opened.
-/

namespace ActiveChain

open Update List

/-! ## The log -/

/-- One settled epoch: what it issued, and the total supply just before. -/
structure Settlement where
  epoch : Nat
  issued : Nat
  supplyBefore : Nat

def Settlement.window (x : Settlement) : Nat := (x.epoch - 1) / issuanceEpochsPerYear

def CashCall.settles : CashCall → Option (Nat × Nat)
  | .mint m _ => some (m.sequence, m.amount)
  | .settle settlement => some (settlement.epoch, 0)
  | _ => none

def CashCall.settlement (call : CashCall) (l : CashLedger) : Option Settlement :=
  call.settles.map fun x => ⟨x.1, x.2, l.supply.currentTotalSupply⟩

def CashState.settlements (C : Crypto) (s : CashState) : List CashCall → List Settlement
  | [] => []
  | call :: calls =>
    match call.exec C s with
    | (.ok _, s') => (call.settlement s.ledger).toList ++ s'.settlements C calls
    | (.error _, s') => s'.settlements C calls

def issuedIn (log : List Settlement) (window : Nat) : Nat :=
  ((log.filter fun x => x.window = window).map Settlement.issued).sum

/-- The total supply when a window opened: the first one opens at genesis, every other with its
first settlement. -/
def openingSupply (genesisSupply : Nat) (log : List Settlement) (window : Nat) : Nat :=
  if window = 0 then genesisSupply
  else ((log.find? fun x => x.window = window).map Settlement.supplyBefore).getD 0

section Log

variable {log : List Settlement} {x : Settlement} {window genesisSupply : Nat}

theorem issuedIn_append_self :
    issuedIn (log ++ [x]) x.window = issuedIn log x.window + x.issued := by
  simp [issuedIn]

theorem issuedIn_eq_zero (h : ∀ y ∈ log, y.window ≠ window) : issuedIn log window = 0 := by
  have hn : log.filter (fun y => decide (y.window = window)) = [] :=
    filter_eq_nil_iff.2 fun y hy => by simpa using h y hy
  rw [issuedIn, hn]
  rfl

theorem openingSupply_append_of_mem {y : Settlement} (hy : y ∈ log) (h : y.window = window) :
    openingSupply genesisSupply (log ++ [x]) window = openingSupply genesisSupply log window := by
  have hs : (log.find? fun y => decide (y.window = window)).isSome = true :=
    find?_isSome.2 ⟨y, hy, by simpa using h⟩
  obtain ⟨z, hz⟩ := Option.isSome_iff_exists.1 hs
  rw [openingSupply, openingSupply, find?_append, hz]
  rfl

theorem openingSupply_append_self (hf : x.window ≠ 0) (h : ∀ y ∈ log, y.window ≠ x.window) :
    openingSupply genesisSupply (log ++ [x]) x.window = x.supplyBefore := by
  have hn : (log.find? fun y => decide (y.window = x.window)) = none :=
    find?_eq_none.2 fun y hy => by simpa using h y hy
  simp [openingSupply, if_neg hf, hn]

end Log

/-! ## One call -/

/-- The counters of the window stay as they are. -/
structure SameWindow (s s' : NativeSupply) : Prop where
  epoch : s'.lastSettledEpoch = s.lastSettledEpoch
  window : s'.issuanceWindow = s.issuanceWindow
  opening : s'.issuanceWindowOpeningSupply = s.issuanceWindowOpeningSupply
  issued : s'.issuanceInWindow = s.issuanceInWindow

open CashCall

namespace CashLedger

variable {C : Crypto} {l l' : CashLedger}

theorem FeeMoved.sameWindow {s s' : NativeSupply} {fee : Nat} (h : FeeMoved s s' fee) :
    SameWindow s s' := by
  obtain ⟨-, hf⟩ := h
  constructor <;> rw [hf]

theorem Burned.sameWindow {s s' : NativeSupply} {amount : Nat} (h : Burned s s' amount) :
    SameWindow s s' := by
  obtain ⟨-, hf⟩ := h
  constructor <;> rw [hf]

theorem TransferEffect.sameWindow {t : CoinTransfer} (h : TransferEffect C l l' t) :
    l'.definition = l.definition ∧ SameWindow l.supply l'.supply := by
  obtain ⟨-, -, -, -, -, supply, hm, heq⟩ := h
  rw [heq]
  exact ⟨rfl, hm.sameWindow⟩

/-- **A call settles the next epoch within the cap of its window, or leaves the window alone.** -/
theorem settled_of_prepare {call : CashCall} {u : PUnit}
    (h : (call.prepare C).exec l = (.ok u, l')) : l'.definition = l.definition ∧
      ((∃ amount, call.settles = some (l.supply.lastSettledEpoch + 1, amount) ∧
        Settled l.definition l.supply l'.supply amount) ∨
      call.settles = none ∧ SameWindow l.supply l'.supply) := by
  cases call with
  | transfer t height =>
    have hs := (prepareTransfer_ok h).sameWindow
    exact ⟨hs.1, .inr ⟨rfl, hs.2⟩⟩
  | sponsoredTransfer policy request t height =>
    have hs := (prepareSponsored_ok h).sameWindow
    exact ⟨hs.1, .inr ⟨rfl, hs.2⟩⟩
  | burn b height =>
    obtain ⟨-, -, -, -, -, supply, hb, heq⟩ := prepareBurn_ok h
    rw [heq]
    exact ⟨rfl, .inr ⟨rfl, hb.sameWindow⟩⟩
  | mint m settlement =>
    obtain ⟨_, _, hmi, hr⟩ := exec_bind_eq_ok.1 h
    cases hr
    obtain ⟨hseq, r, -, -, supply, hse, heq⟩ := prepareMint_ok hmi
    rw [heq]
    refine ⟨rfl, .inl ⟨m.amount, ?_, hse⟩⟩
    rw [settles, hseq]
  | settle settlement =>
    obtain ⟨hep, supply, hse, rfl⟩ := prepareSettlement_ok h
    refine ⟨rfl, .inl ⟨0, ?_, hse⟩⟩
    rw [settles, hep]
  | shield i proof height =>
    obtain ⟨-, -, -, -, -, -, -, supply, hm, heq⟩ := prepareShield_ok h
    rw [heq]
    exact ⟨rfl, .inr ⟨rfl, hm.sameWindow⟩⟩
  | unshield i proof height =>
    obtain ⟨_, _, hu, hr⟩ := exec_bind_eq_ok.1 h
    cases hr
    obtain ⟨-, -, -, -, -, supply, hm, heq⟩ := prepareUnshield_ok hu
    rw [heq]
    exact ⟨rfl, .inr ⟨rfl, hm.sameWindow⟩⟩
  | redeem settlement r =>
    obtain ⟨t, paid, -, he, heq⟩ := (prepareRedeem_ok h).2
    have hs := he.sameWindow
    rw [heq]
    exact ⟨hs.1, .inr ⟨rfl, hs.2⟩⟩

end CashLedger

/-! ## The counters of a run -/

/-- The counters of `l` are those of the settlements so far, and every window is within its cap. -/
structure WindowCounters (definition : NativeAssetDefinition) (l : CashLedger)
    (log : List Settlement) : Prop where
  definition_eq : l.definition = definition
  epochs : log.map Settlement.epoch = List.range' 1 l.supply.lastSettledEpoch
  opening : l.supply.issuanceWindowOpeningSupply =
    openingSupply definition.genesisSupply log l.supply.issuanceWindow
  issued : l.supply.issuanceInWindow = issuedIn log l.supply.issuanceWindow
  capped : ∀ window, issuedIn log window ≤ openingSupply definition.genesisSupply log window *
    definition.maximumOrdinaryAnnualIssuanceBps / basisPointsDenominator

open CashLedger

open Settlement

open CashState

namespace WindowCounters

variable {definition : NativeAssetDefinition} {l l' : CashLedger} {log : List Settlement}

section

variable (h : WindowCounters definition l log)
include h

theorem mem_epochs {e : Nat} :
    (∃ y ∈ log, y.epoch = e) ↔ 1 ≤ e ∧ e ≤ l.supply.lastSettledEpoch := by
  rw [← mem_map, h.epochs, mem_range'_1]
  omega

theorem window_le {y : Settlement} (hy : y ∈ log) : y.window ≤ l.supply.issuanceWindow := by
  have he := h.mem_epochs.1 ⟨y, hy, rfl⟩
  rw [l.supply.consistent.settled (by omega), window]
  exact Nat.div_le_div_right (by omega)

/-- What the ledger takes for the window of the next epoch is what the log says of it, once that
epoch is settled. -/
theorem windowBefore_eq {x : Settlement} (he : x.epoch = l.supply.lastSettledEpoch + 1)
    (hb : x.supplyBefore = l.supply.currentTotalSupply) :
    windowBefore l.supply x.window =
      (openingSupply definition.genesisSupply (log ++ [x]) x.window, issuedIn log x.window) := by
  have hn : x.window = l.supply.lastSettledEpoch / issuanceEpochsPerYear := by
    rw [window, he, Nat.add_sub_cancel]
  unfold windowBefore
  by_cases hz : l.supply.lastSettledEpoch = 0
  · -- the first epoch: the first window has been open since genesis
    rw [if_pos (.inl hz)]
    have hw : l.supply.issuanceWindow = x.window := by
      rw [(l.supply.consistent.unsettled hz).1, hn, hz, Nat.zero_div]
    have hf : x.window = 0 := by rw [hn, hz, Nat.zero_div]
    rw [h.opening, h.issued, hw, openingSupply, openingSupply, if_pos hf, if_pos hf]
  · have hc := l.supply.consistent.settled hz
    by_cases hs : x.window = l.supply.issuanceWindow
    · -- the last settled epoch is in this window
      rw [if_pos (.inr hs), h.opening, h.issued, ← hs]
      obtain ⟨y, hy, hl⟩ := h.mem_epochs.2 ⟨Nat.one_le_iff_ne_zero.2 hz, Nat.le_refl _⟩
      have hw : y.window = x.window := by rw [hs, hc, window, hl]
      rw [openingSupply_append_of_mem hy hw]
    · -- no settlement so far is in this window, which is later than the current one
      have hle : l.supply.issuanceWindow ≤ x.window := by
        rw [hc, hn]
        exact Nat.div_le_div_right (Nat.sub_le _ _)
      have hnew : ∀ y ∈ log, y.window ≠ x.window := fun y hy heq => by
        have := h.window_le hy
        omega
      rw [if_neg (by simp [hz, hs]), issuedIn_eq_zero hnew,
        openingSupply_append_self (by omega) hnew, hb]

/-- **A settlement moves the counters on.** -/
theorem settle {amount : Nat} (hd : l'.definition = l.definition)
    (hs : Settled l.definition l.supply l'.supply amount) :
    WindowCounters definition l' (log ++
      [⟨l.supply.lastSettledEpoch + 1, amount, l.supply.currentTotalSupply⟩]) := by
  obtain ⟨hf, cap, hcap, hle⟩ := hs
  generalize hx : Settlement.mk (l.supply.lastSettledEpoch + 1) amount
    l.supply.currentTotalSupply = x
  have he : x.epoch = l.supply.lastSettledEpoch + 1 := by rw [← hx]
  have hi : x.issued = amount := by rw [← hx]
  have hn : nextWindow l.supply = x.window := by
    rw [nextWindow, Settlement.window, he, Nat.add_sub_cancel]
  rw [hn, h.windowBefore_eq he (by rw [← hx])] at hf hcap hle
  refine ⟨hd.trans h.definition_eq, ?_, ?_, ?_, ?_⟩
  · rw [hf, map_append, h.epochs, map_singleton, he, range'_1_concat, Nat.add_comm 1]
  · rw [hf]
  · rw [hf, issuedIn_append_self, hi]
  · intro window
    by_cases hw : x.window = window
    · subst hw
      have hfl := eq_floor_of_basisPointsAmount hcap
      rw [h.definition_eq] at hfl
      rw [issuedIn_append_self, hi, ← hfl]
      exact hle
    · simpa [issuedIn, openingSupply, hw] using h.capped window

theorem same (hd : l'.definition = l.definition)
    (hs : SameWindow l.supply l'.supply) : WindowCounters definition l' log := by
  refine ⟨hd.trans h.definition_eq, ?_, ?_, ?_, h.capped⟩
  · rw [hs.epoch]
    exact h.epochs
  · rw [hs.opening, hs.window]
    exact h.opening
  · rw [hs.issued, hs.window]
    exact h.issued

end

theorem genesis {C : Crypto} {economy : GenesisEconomy}
    (h : fromGenesis C economy = .ok l) : WindowCounters economy.definition l [] := by
  obtain ⟨-, -, hd, ⟨reserve, locked, hf⟩, -⟩ := fromGenesis_ok h
  refine ⟨hd, ?_, ?_, ?_, fun window => Nat.zero_le _⟩
  · rw [hf]
    rfl
  · rw [hf]
    rfl
  · rw [hf]
    rfl

theorem run (C : Crypto) {s : CashState} (h : WindowCounters definition s.ledger log)
    (calls : List CashCall) :
    WindowCounters definition (s.run C calls).ledger (log ++ s.settlements C calls) := by
  induction calls generalizing s log with
  | nil =>
    rw [settlements, append_nil]
    exact h
  | cons call calls ih =>
    rw [settlements, run_cons]
    rcases hexec : call.exec C s with ⟨_ | _, s'⟩
    · rw [exec_error hexec]
      exact ih h
    · obtain ⟨hd, hc⟩ := settled_of_prepare (exec_ok hexec).1
      rcases hc with ⟨amount, hs, hse⟩ | ⟨hs, hsa⟩
      · have hn := ih (h.settle hd hse)
        simpa [settlement, hs] using hn
      · have hn := ih (h.same hd hsa)
        simpa [settlement, hs] using hn

end WindowCounters

/-- **Issuance stays within its windows.**  In every run from a genesis the epochs 1, 2, 3, … are
settled in this order, each once, and what is issued in a window is at most the floor of its opening
supply times the annual cap in basis points. -/
theorem issuance_within_windows {C : Crypto} {economy : GenesisEconomy} {ledger : CashLedger}
    (hgenesis : CashLedger.fromGenesis C economy = .ok ledger)
    (policies : Nat → CashPaymasterPolicyV1) (calls : List CashCall) :
    (CashState.settlements C ⟨ledger, policies⟩ calls).map Settlement.epoch =
      List.range' 1 (CashState.settlements C ⟨ledger, policies⟩ calls).length ∧
    ∀ window, issuedIn (CashState.settlements C ⟨ledger, policies⟩ calls) window ≤
      openingSupply economy.definition.genesisSupply
        (CashState.settlements C ⟨ledger, policies⟩ calls) window *
        economy.definition.maximumOrdinaryAnnualIssuanceBps / basisPointsDenominator := by
  have hs : WindowCounters economy.definition (mk ledger policies).ledger [] := .genesis hgenesis
  have hend := hs.run C calls
  rw [nil_append] at hend
  have hl := congrArg List.length hend.epochs
  rw [length_map, length_range'] at hl
  rw [hl]
  exact ⟨hend.epochs, hend.capped⟩

namespace SmallLedger

/-- Issue in the first epoch what the security budget asks for. -/
def mint : CoinMintTransition := ⟨1, 9, 41, 1, 3, by decide⟩

def settlement : EpochEconomicsTransition where
  epoch := 1
  preSupply := 1000000
  effectiveStakeBps := 0
  securityFeeRevenue := 0
  reserveDraw := 0
  targetSecurityBudget := 41
  authorizedIssuance := 41
  issuanceCap := 20000
  burnedAmount := 0
  postSupply := 1000041
  range := by decide
  formula := by decide
  equation := by decide

/-- The mint is accepted, and the first window stays within two per cent of the genesis supply. -/
theorem mint_within_window :
    CashLedger.fromGenesis .transparent economy = .ok (genesisLedger .transparent) ∧
    (∃ s', (CashCall.mint mint settlement).exec .transparent (start .transparent) = (.ok (), s')) ∧
    issuedIn (CashState.settlements .transparent (start .transparent) [.mint mint settlement]) 0 ≤
      1000000 * 200 / 10000 := by
  have hg := fromGenesis_economy transparent_nonzero
  have hv := (fromGenesis_ok hg).1
  obtain ⟨_, l', hp⟩ := exists_exec_of_isSome
    (by decide +kernel : ((prepareMint .transparent mint settlement).exec
      (genesisLedger .transparent)).1.toOption.isSome = true)
  have haf := hv.of_mint (prepareMint_ok hp)
  exact ⟨hg, ⟨_, onLedger_of_ok (exec_atomically_eq_ok.2 (exec_bind_eq_ok.2
    ⟨_, l', hp, exec_bind_eq_ok.2 ⟨(), l', haf.exec_verifySelf, rfl⟩⟩))⟩,
    (issuance_within_windows hg _ _).2 0⟩

end SmallLedger

end ActiveChain
