import AnkerNode.Address.Base58
import AnkerNode.Address.Bech32
import AnkerNode.Address.ConvertBits
import AnkerNode.Address.Destination
import AnkerNode.Budget.Admission
import AnkerNode.Budget.BlockChecks
import AnkerNode.Budget.CheckAndRemove
import AnkerNode.Budget.CleanUp
import AnkerNode.Budget.FinalizedBudget
import AnkerNode.Budget.ForgedVotes
import AnkerNode.Budget.Manager
import AnkerNode.Budget.PaymentCycles
import AnkerNode.Budget.Payments
import AnkerNode.Budget.Suggestion
import AnkerNode.Budget.VoteDelivery
import AnkerNode.Budget.VoteDesk
import AnkerNode.Budget.VoteOrder
import AnkerNode.Chain.Activation
import AnkerNode.Chain.BlockIndex
import AnkerNode.Chain.BlockTree
import AnkerNode.Chain.CompactForm
import AnkerNode.Chain.DarkGravityWave
import AnkerNode.Chain.FlushState
import AnkerNode.Chain.IndexInvariant
import AnkerNode.Chain.IndexRun
import AnkerNode.Chain.Invalidation
import AnkerNode.Chain.Linking
import AnkerNode.Chain.LoadIndex
import AnkerNode.Chain.Locator
import AnkerNode.Chain.Pow
import AnkerNode.Chain.ProofOfWork
import AnkerNode.Chain.Reconsider
import AnkerNode.Chain.SkipList
import AnkerNode.Chain.StakeKernel
import AnkerNode.Chain.StakeModifier
import AnkerNode.Chain.StakeWeight
import AnkerNode.Coins.BestBlock
import AnkerNode.Coins.CacheRefinement
import AnkerNode.Coins.CacheRun
import AnkerNode.Coins.CacheStack
import AnkerNode.Coins.Coins
import AnkerNode.Coins.RecordRoundTrip
import AnkerNode.Coins.RecordSize
import AnkerNode.Coins.Undo
import AnkerNode.Coins.View
import AnkerNode.Governance.ForgedMessages
import AnkerNode.Governance.SignedMessages
import AnkerNode.Lib.Best
import AnkerNode.Lib.Bits
import AnkerNode.Lib.Buckets
import AnkerNode.Lib.ByteStream
import AnkerNode.Lib.CarvedRanges
import AnkerNode.Lib.Checks
import AnkerNode.Lib.CoinChange
import AnkerNode.Lib.DigitText
import AnkerNode.Lib.Framing
import AnkerNode.Lib.Greedy
import AnkerNode.Lib.HashLevels
import AnkerNode.Lib.LimbArith
import AnkerNode.Lib.LimbDivision
import AnkerNode.Lib.Loops
import AnkerNode.Lib.OrderedSet
import AnkerNode.Lib.PrunedTree
import AnkerNode.Lib.RadixBuffer
import AnkerNode.Lib.RankedForest
import AnkerNode.Lib.Ranking
import AnkerNode.Lib.Rounds
import AnkerNode.Lib.SlotTable
import AnkerNode.Lib.Table
import AnkerNode.Lib.Traced
import AnkerNode.Lib.TreeMaps
import AnkerNode.Lib.TrimmedList
import AnkerNode.Lib.WindowLedger
import AnkerNode.Masternode.AliasListing
import AnkerNode.Masternode.Announcements
import AnkerNode.Masternode.BlockHashCache
import AnkerNode.Masternode.BlockPayment
import AnkerNode.Masternode.ColdStakers
import AnkerNode.Masternode.ColdStaking
import AnkerNode.Masternode.ForgedAnnouncements
import AnkerNode.Masternode.Masternode
import AnkerNode.Masternode.PayeeVotes
import AnkerNode.Masternode.PaymentCleanup
import AnkerNode.Masternode.PaymentQueue
import AnkerNode.Masternode.Payments
import AnkerNode.Masternode.Rank
import AnkerNode.Masternode.Removal
import AnkerNode.Masternode.SeenMaps
import AnkerNode.Mempool.ChainTip
import AnkerNode.Mempool.DescendantClosure
import AnkerNode.Mempool.ImmatureSpends
import AnkerNode.Mempool.SpendIndex
import AnkerNode.Mempool.Supply
import AnkerNode.Mempool.TxMemPool
import AnkerNode.Mining.BlockTemplate
import AnkerNode.Mining.Collection
import AnkerNode.Mining.Selection
import AnkerNode.Mining.TemplateAlignment
import AnkerNode.Net.AddrMan
import AnkerNode.Net.AddrManCheck
import AnkerNode.Net.AddrManDisk
import AnkerNode.Net.AddrManInvariant
import AnkerNode.Net.AddrManMoves
import AnkerNode.Net.AddrManRestore
import AnkerNode.Net.AddrManRoundTrip
import AnkerNode.Net.AddrManRun
import AnkerNode.Net.AddrManSteps
import AnkerNode.Net.BlockDownload
import AnkerNode.Net.BloomFilter
import AnkerNode.Net.LimitedMap
import AnkerNode.Net.MerkleProofs
import AnkerNode.Net.MessageFraming
import AnkerNode.Net.Orphans
import AnkerNode.Net.PartialMerkleTree
import AnkerNode.Net.ReceiveMessages
import AnkerNode.Primitives.Transaction
import AnkerNode.Primitives.Uint256
import AnkerNode.Script.CodeSeparators
import AnkerNode.Script.CombineSignatures
import AnkerNode.Script.DestinationReads
import AnkerNode.Script.Interpreter
import AnkerNode.Script.InterpreterSafety
import AnkerNode.Script.KeyScripts
import AnkerNode.Script.MultiSigMatching
import AnkerNode.Script.NumberEncoding
import AnkerNode.Script.Opcodes
import AnkerNode.Script.PushParsing
import AnkerNode.Script.Script
import AnkerNode.Script.SigOpBound
import AnkerNode.Script.SigOps
import AnkerNode.Script.Sign
import AnkerNode.Script.SignatureEncoding
import AnkerNode.Script.SignedSpends
import AnkerNode.Script.SoftFork
import AnkerNode.Script.Solver
import AnkerNode.Script.SolverReads
import AnkerNode.Script.StackBounds
import AnkerNode.Script.Standard
import AnkerNode.Script.StandardScripts
import AnkerNode.Script.ThrowingEval
import AnkerNode.Script.ThrowingRefinement
import AnkerNode.Script.ThrowingRun
import AnkerNode.Script.Verify
import AnkerNode.Serialize.AmountCompression
import AnkerNode.Serialize.Compressor
import AnkerNode.Serialize.TransactionFormat
import AnkerNode.Swift.LockedInputs
import AnkerNode.Swift.Requests
import AnkerNode.Swift.Run
import AnkerNode.Swift.SwiftTx
import AnkerNode.Swift.Votes
import AnkerNode.Validation.ActiveChain
import AnkerNode.Validation.BlockFiles
import AnkerNode.Validation.BlockReads
import AnkerNode.Validation.BlockSignature
import AnkerNode.Validation.CheckBlock
import AnkerNode.Validation.CheckQueue
import AnkerNode.Validation.CheckQueueRun
import AnkerNode.Validation.CheckTransaction
import AnkerNode.Validation.ConnectBlock
import AnkerNode.Validation.ConnectSpec
import AnkerNode.Validation.DisconnectBlock
import AnkerNode.Validation.DisconnectInverse
import AnkerNode.Validation.DisconnectSpec
import AnkerNode.Validation.ForkScan
import AnkerNode.Validation.Issuance
import AnkerNode.Validation.Merkle
import AnkerNode.Validation.MerkleBranch
import AnkerNode.Validation.MerkleTree
import AnkerNode.Validation.ScriptChecks
import AnkerNode.Validation.SignatureHash
import AnkerNode.Validation.StakeIndex
import AnkerNode.Validation.TimeLocks
import AnkerNode.Validation.UndoRun
import AnkerNode.Validation.VerifyDB
import AnkerNode.Validation.WitnessCommitment
import AnkerNode.Wallet.CoinSelection
import AnkerNode.Wallet.CoinStake
import AnkerNode.Wallet.CreateTransaction
import AnkerNode.Wallet.CryptoKeyStore
import AnkerNode.Wallet.EncryptedWallet
import AnkerNode.Wallet.PaymentBooks
import AnkerNode.Zerocoin.Accumulators
import AnkerNode.Zerocoin.CheckpointRun
import AnkerNode.Zerocoin.Coin
import AnkerNode.Zerocoin.MintChoice
import AnkerNode.Zerocoin.MintSelection
import AnkerNode.Zerocoin.Serials
import AnkerNode.Zerocoin.Supply
import AnkerNode.Zerocoin.SupplyRun
import AnkerNode.Zerocoin.Tables
import AnkerNode.Zerocoin.WipeCoins
