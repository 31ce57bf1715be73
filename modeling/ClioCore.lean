import ClioCore.Ec.FaultTolerance
import ClioCore.Ec.Declustered
import ClioCore.SafeBdev.Allocation
import ClioCore.SafeBdev.WriteAck
import ClioCore.SafeBdev.AllocLog
import ClioCore.SafeBdev.Manifest
import ClioCore.Cte.Accounts
import ClioCore.Cte.FailedPuts
import ClioCore.Cte.MultiPut
import ClioCore.Bdev.Heap
import ClioCore.Cte.TagDeletion
import ClioCore.Filesystem.AppendFailures
import ClioCore.Filesystem.RenameRefinement
import ClioCore.Runtime.Recovery
import ClioCore.Runtime.Addressing
import ClioCore.Runtime.Collectives
import ClioCore.Runtime.Rerouting
import ClioCore.Runtime.Accounting
import ClioCore.Runtime.Stranding
import ClioCore.Runtime.Revivals
import ClioCore.Runtime.RestartLog
import ClioCore.Runtime.CoRwLock
import ClioCore.Runtime.Migration
import ClioCore.Runtime.TaskGroups
import ClioCore.Transport.UnorderedMap
import ClioCore.Transport.SocketSend
