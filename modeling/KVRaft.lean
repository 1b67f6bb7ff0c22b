import KVRaft.RaftCore.Safety.ElectionSafety
import KVRaft.RaftCore.Safety.LogMatching
import KVRaft.RaftCore.Safety.StateMachineSafety
import KVRaft.RaftCore.Cluster.Origins
import KVRaft.RaftCore.Cluster.Electable
import KVRaft.RaftCore.Safety.DelayedMessages
import KVRaft.RaftCore.Safety.NextIndex
import KVRaft.RaftCore.Safety.CrashRecovery
import KVRaft.RaftCore.Safety.SameCommand
import KVRaft.RaftCore.Safety.NodeInvariant
import KVRaft.RaftCore.Safety.WriteThrough
import KVRaft.RaftCore.Safety.SaveDurability
import KVRaft.RaftCore.Safety.SnapshotReading
import KVRaft.RaftCore.Safety.Reconciliation
import KVRaft.RaftCore.Safety.SnapshotTail
import KVRaft.RaftCore.Safety.LogProbing
import KVRaft.RaftCore.Safety.CommitMajority
import KVRaft.RaftCore.Safety.CommitNotMissed
import KVRaft.RaftCore.Safety.CommitRule
import KVRaft.RaftCore.Safety.ReplicationProgress
import KVRaft.RaftCore.Safety.MissingSuffix
import KVRaft.Common.LockQueue
import KVRaft.KvServer.InSequence
import KVRaft.KvServer.SnapshotInstall
import KVRaft.KvServer.SnapshotReplace
import KVRaft.KvServer.OneWaiter
import KVRaft.KvServer.StateSize
import KVRaft.RaftClerk.ExactlyOnce
import KVRaft.RaftClerk.AppliedOnce
import KVRaft.RaftClerk.ReadInfluence
import KVRaft.RaftClerk.FreshReads
import KVRaft.RaftClerk.OneStore
import KVRaft.RaftClerk.ReturnedCalls
import KVRaft.RaftClerk.Linearizable
import KVRaft.RaftClerk.Deployment
import KVRaft.RaftClerk.OneOrder
import KVRaft.RaftClerk.DeploymentRuns
import KVRaft.RaftClerk.DeploymentLinearizable
import KVRaft.RaftClerk.RoundRobin
import KVRaft.SkipList.DumpLoad
import KVRaft.SkipList.Representation
import KVRaft.Fiber.EventBookkeeping
import KVRaft.Fiber.NothingLost
import KVRaft.Fiber.ScheduledFibers
import KVRaft.Fiber.TableGrowth
import KVRaft.Fiber.TimerExpiry
import KVRaft.Fiber.TimerChanges
import KVRaft.Fiber.TimerWakeups
import KVRaft.Fiber.HookedFlags
import KVRaft.Rpc.Chunking
import KVRaft.Rpc.Channel
import KVRaft.Rpc.SharedChannel
import KVRaft.Rpc.Config
import KVRaft.Rpc.StartUp
import KVRaft.Rpc.Provider
