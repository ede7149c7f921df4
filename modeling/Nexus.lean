import Nexus.Fs.HardlinkStore
import Nexus.Fs.Mediation
import Nexus.Fs.LinkCount
import Nexus.Fs.TreeInvariant
import Nexus.Storage.Rollback
import Nexus.Storage.LockState
import Nexus.Storage.Deferred
import Nexus.Dirnode.Binding
import Nexus.Dentry.Links
import Nexus.Users.Rootkey
import Nexus.Abac.FailClosed
import Nexus.Abac.ParserTermination
import Nexus.Abac.References
import Nexus.Abac.Numbers
import Nexus.Files.FilenodeStore
import Nexus.Backend.Commit
import Nexus.Frontend.Icache
import Nexus.Frontend.Readdir
import Nexus.Storage.Pinned
import Nexus.Dirnode.AttributeMap
import Nexus.Abac.AttributeListing
import Nexus.Users.TableStore
import Nexus.Users.Management
import Nexus.Abac.PolicyStore
import Nexus.Dirnode.RenameLaw
import Nexus.Ecalls.WriteLock
import Nexus.Encode
