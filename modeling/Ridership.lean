import Ridership.Build.Log
import Ridership.Main
import Ridership.Proofs.Build.Bounds
import Ridership.Proofs.Build.FailedBuild
import Ridership.Proofs.Build.FanIn
import Ridership.Proofs.Build.Logging
import Ridership.Proofs.Build.Reporting
import Ridership.Proofs.Command.Sizes
import Ridership.Proofs.Geo.Closest
import Ridership.Proofs.Index.PowerLoss
import Ridership.Proofs.Routing.Evidence
import Ridership.Proofs.Routing.Priority
import Ridership.Proofs.Snap.Litter
import Ridership.Proofs.Snap.Nearest
import Ridership.Proofs.Store.Reading
import Ridership.Proofs.Store.Sharing
import Ridership.Proofs.Tally.Cutting
import Ridership.Proofs.Track.Listing
import Ridership.Proofs.Way.Visiting
