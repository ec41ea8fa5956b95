import ActiveChain.Cash.AuthenticatedProver
import ActiveChain.State.Proofs
import ActiveChain.Fungible.Cells
import ActiveChain.Cash.Air
import ActiveChain.Billboard.Posts
import ActiveChain.WorkProof.TrustPanics
import ActiveChain.Accumulator.History
import ActiveChain.Cash.Paymaster
import ActiveChain.Vm.Gas
import ActiveChain.Vm.Resources
import ActiveChain.Vm.BytecodeCodec
import ActiveChain.Cash.LedgerReachable
import ActiveChain.Cash.LedgerMigration
import ActiveChain.Privacy.Acceptance
import ActiveChain.Consensus.Justification
import ActiveChain.Cash.Economics
import ActiveChain.Authority.Availability
import ActiveChain.Consensus.ValidatorCodec
import ActiveChain.Devnet.Tickets
import ActiveChain.LightClient.Rotation
import ActiveChain.Wallet.Persistence
import ActiveChain.Wallet.Qualification
import ActiveChain.Wallet.Submissions
import ActiveChain.Wallet.Proposals
import ActiveChain.Storage.Pruning
