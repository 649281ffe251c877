import Alqo.AddrManRestore
import Alqo.BestBlock
import Alqo.Bip38
import Alqo.BlockFiles
import Alqo.BlockSignature
import Alqo.BlockTemplate
import Alqo.BudgetCount
import Alqo.BudgetSelection
import Alqo.BudgetSupport
import Alqo.BudgetTally
import Alqo.CachedConnect
import Alqo.FailureFlags
import Alqo.FeeEstimates
import Alqo.FetchBlocks
import Alqo.ForkStake
import Alqo.InputAge
import Alqo.JustCheck
import Alqo.KernelAgreement
import Alqo.KernelWeight
import Alqo.LinkedData
import Alqo.LockExpiry
import Alqo.LockTime
import Alqo.LockVotes
import Alqo.MerkleBranch
import Alqo.MintSchedule
import Alqo.ModifierSelection
import Alqo.MoneySupply
import Alqo.MultiSig
import Alqo.NextWorkBounds
import Alqo.Orphans
import Alqo.PayeeRecheck
import Alqo.PaymentList
import Alqo.PaymentQueue
import Alqo.ProofSwitch
import Alqo.ScriptFlags
import Alqo.SeenMessages
import Alqo.StakeRestart
import Alqo.Superblock
import Alqo.UndoDisk
import Alqo.VoteRejection
