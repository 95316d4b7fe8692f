import Lightcache.Foundation.Execution
import Lightcache.Conversion
import Lightcache.Hashtab.Resize
import Lightcache.Hashtab.FiniteMap
import Lightcache.Slab.Address
import Lightcache.Slab.Pool
import Lightcache.Slab.Setup
import Lightcache.Slab.Widths
import Lightcache.SysMalloc
import Lightcache.Server.Event
import Lightcache.Server.Store
import Lightcache.Server.Execute
import Lightcache.Server.Lifecycle
import Lightcache.Server.Recycled
import Lightcache.Server.Payload
import Lightcache.Server.Isolation
import Lightcache.Server.Recall
import Lightcache.Server.Timeouts
import Lightcache.Server.Parameters
import Lightcache.Server.Pipeline
import Lightcache.Server.Reference
import Lightcache.Server.Secrets
import Lightcache.Server.Crowd
import Lightcache.Server.Lanes
import Lightcache.Server.Conversation
import Lightcache.Server.Batch
import Lightcache.Server.Memory
import Lightcache.Server.Startup
import Lightcache.Server.Loop
