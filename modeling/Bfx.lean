import Bfx.BitWords
import Bfx.LotQueue
import Bfx.CallOutcome
import Bfx.HexText
import Bfx.AmountCodec
import Bfx.AmountRange
import Bfx.TokenScript
import Bfx.ParserSafety
import Bfx.AcceptedScripts
import Bfx.ScriptCreation
import Bfx.ScriptReencoding
import Bfx.ScriptText
import Bfx.ScriptTemplates
import Bfx.Transaction
import Bfx.TokenTransaction
import Bfx.TransferInterpreter
import Bfx.TransferSemantics
import Bfx.InterpreterSafety
import Bfx.TransferConservation
import Bfx.TransactionAmending
import Bfx.TokenReading
import Bfx.IssuanceDistribution
import Bfx.AggregationPolicies
import Bfx.CoinSpending
import Bfx.TokenLedger
import Bfx.TokenSelector
import Bfx.QueueRefinement
import Bfx.QueueSemantics
import Bfx.SelectorExecution
import Bfx.SelectorAgreement
import Bfx.ChainIndex
import Bfx.InputConnection
import Bfx.BlockConnection
import Bfx.MintingBound
import Bfx.CompactNumber
import Bfx.BlockTree
import Bfx.Retarget
import Bfx.HeightRules
import Bfx.StakeKernel
import Bfx.SpentLog
import Bfx.SpentIndex
import Bfx.TokenInputs
import Bfx.ForkVerification
import Bfx.ForkExactness
import Bfx.BestChain
import Bfx.BlockAcceptance
import Bfx.TokenSymbols
import Bfx.ChainAgreement
import Bfx.SymbolUniqueness
import Bfx.AmendedOwnership
import Bfx.BloomFilter
import Bfx.KeyTable
import Bfx.WalletSpent
import Bfx.MessageDecryption
import Bfx.DecryptionSafety
import Bfx.MemoryPool
import Bfx.BlockTemplate
import Bfx.InputViews
import Bfx.TemplateConnection
import Bfx.DependencyOrder
import Bfx.LeafOrder
import Bfx.ChainSwitch
import Bfx.Resurrection
import Bfx.SymbolRelease
import Bfx.MemoTable
import Bfx.RecordConsistency
import Bfx.TokenAgreement
import Bfx.DatabaseJson
import Bfx.SelectorBalance
import Bfx.SelectionTotals
import Bfx.SelectorObject
import Bfx.MoneySums
import Bfx.RetargetBounds
import Bfx.MerkleTree
import Bfx.OrphanBlocks
import Bfx.PartialMerkle
import Bfx.BlockLocator
import Bfx.KeyPool
import Bfx.CoinFilter
import Bfx.TimeOffset
import Bfx.TriedEviction
import Bfx.FilterMatches
import Bfx.MessageFraming
import Bfx.VarInt
