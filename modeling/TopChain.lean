import TopChain.Base.MerkleCost
import TopChain.Base.MerkleSound
import TopChain.Base.XlruCache
import TopChain.Bft.Agreement
import TopChain.Bft.Delivery
import TopChain.Bft.NodeLock
import TopChain.Bft.Pacemaker
import TopChain.Bft.Redelivery
import TopChain.Bft.SyncRequest
import TopChain.Bft.TimeoutCert
import TopChain.Cert.Quorum
import TopChain.Common.FtsChance
import TopChain.Config.OnchainLoader
import TopChain.Data.BookIdMapping
import TopChain.Election.VnodeHouse
import TopChain.Election.VnodeManager
import TopChain.Sign.MergeSign
import TopChain.Store.CurrentBlock
import TopChain.Store.DecayedTgas
import TopChain.Store.ExecuteOnce
import TopChain.Store.OneStored
import TopChain.Store.PropertyQuery
import TopChain.Store.RestartOrder
import TopChain.Store.StoreKey
import TopChain.Store.TgasSingleton
import TopChain.Store.TokenLocks
import TopChain.Store.VoteTokens
import TopChain.Sync.FetchQueue
import TopChain.Sync.Gossip
import TopChain.Sync.ProvedFlags
import TopChain.Sync.RoleChains
import TopChain.Sync.SyncRange
import TopChain.TxExecutor.BatchGas
import TopChain.TxExecutor.BlockMaker
import TopChain.TxExecutor.FailedTx
import TopChain.TxExecutor.Overdraft
import TopChain.TxExecutor.Votes
import TopChain.TxPool.PoolIndex
import TopChain.TxPool.ReceiptRight
import TopChain.TxPool.RecvSection
import TopChain.TxPool.RetryCache
import TopChain.TxPool.UnconfirmReplay
import TopChain.UnitService.LeaderAgreement
import TopChain.UnitService.UnorderRun
