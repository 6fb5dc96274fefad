import MfsMaster.Inode.Replay
import MfsMaster.Inode.Unique
import MfsMaster.Fs.NamespaceReplay
import MfsMaster.Fs.AttrsReplay
import MfsMaster.Fs.RecoverReplay
import MfsMaster.Fs.RenameQuota
import MfsMaster.Fs.Frozen
import MfsMaster.Data.References
import MfsMaster.Data.ChunkLoop
import MfsMaster.Data.Histogram
import MfsMaster.Data.PendingOps
import MfsMaster.Data.Lengths
import MfsMaster.Data.ReadOnly
import MfsMaster.Data.WriteQuota
import MfsMaster.Data.FailedWrite
import MfsMaster.Data.Protection
import MfsMaster.Data.AclRun
import MfsMaster.Data.Exports
import MfsMaster.Chunk.JobLaws
import MfsMaster.Chunk.LoadBack
import MfsMaster.Lock.SessionReplay
import MfsMaster.Lock.FlockWaiting
import MfsMaster.Lock.FlockReplay
import MfsMaster.Lock.WireRun
import MfsMaster.Pattern.Choice
import MfsMaster.Pattern.Returns
import MfsMaster.Log.Bio
import MfsMaster.Log.Complete
import MfsMaster.Log.Decode
import MfsMaster.Log.AutoRestore
import MfsMaster.Log.Merge
import MfsMaster.Log.Progress
import MfsMaster.Session.ExportCheck
import MfsMaster.Client.Sustained
import MfsMaster.TimeParser
import MfsMaster.Squeue
