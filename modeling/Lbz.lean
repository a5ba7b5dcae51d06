import Lbz.ZonesPlaced
import Lbz.Geometry
import Lbz.Lib.Inverse
import Lbz.Maps
import Lbz.MapMove
import Lbz.MapsAgree
import Lbz.Discard
import Lbz.Counts
import Lbz.Settle
import Lbz.Faults
import Lbz.Allocable
import Lbz.Partner
import Lbz.FreeQueue
import Lbz.Request
import Lbz.Frame
import Lbz.Story
import Lbz.Stranded
import Lbz.GcSurvives
import Lbz.WriteFails
import Lbz.Later
import Lbz.VictimMove
import Lbz.Victim
import Lbz.ReverseMap
import Lbz.Watermark
import Lbz.WorkerPass
import Lbz.Lib.Loop
import Lbz.Quiet
import Lbz.Landing
import Lbz.Mapping
import Lbz.Writable
import Lbz.Appends
import Lbz.Stored
import Lbz.SubmitBio
import Lbz.StaleRead
import Lbz.Transactions
import Lbz.ZoneAccess
import Lbz.ZoneSpots
import Lbz.ZoneWaits
import Lbz.ZoneAlone
import Lbz.Carried
import Lbz.Lib.SearchTree
import Lbz.TaskTree
import Lbz.DeviceIdx
import Lbz.MappingSize
import Lbz.ZoneDrop
import Lbz.RuleChange
import Lbz.Reload
import Lbz.Lib.Store
import Lbz.Contents
import Lbz.Reads
import Lbz.Ownership
import Lbz.Leftovers
import Lbz.Lib.Newest
import Lbz.Records
import Lbz.Budget
import Lbz.Reserve
import Lbz.Phantom
import Lbz.WritePointer
import Lbz.Handover
import Lbz.Acknowledge
import Lbz.Lib.Variant
import Lbz.Work
import Lbz.Drain
