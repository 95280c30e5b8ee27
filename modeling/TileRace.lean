import TileRace.Text.Decimal
import TileRace.Text.Quoted
import TileRace.Wire
import TileRace.Board.Words
import TileRace.Board.Group
import TileRace.Dictionary
import TileRace.Scores
import TileRace.Shuffle.Basic
import TileRace.Game.Turn
import TileRace.Registry
import TileRace.Connection.Link
import TileRace.Schedule
import TileRace.Upgrade
import TileRace.Client.Command
import TileRace.Client.Report
import TileRace.Launch
import TileRace.Main
import TileRace.Proofs.Board.Search
import TileRace.Proofs.Board.Snapshot
import TileRace.Proofs.Game.Atomic
import TileRace.Proofs.Game.Victory
import TileRace.Proofs.Game.Final
import TileRace.Proofs.Game.Replica
import TileRace.Proofs.Game.Lifecycle
import TileRace.Proofs.Server.Leaving
import TileRace.Proofs.Registry.Delivery
import TileRace.Proofs.Server.Trackers
import TileRace.Proofs.Wire.Spellings
import TileRace.Proofs.Server.Crossing
import TileRace.Proofs.Server.Disguise
import TileRace.Proofs.Game.Arrangement
import TileRace.Proofs.Server.Refusal
import TileRace.Proofs.Server.Privacy
import TileRace.Proofs.Server.Duties
import TileRace.Proofs.Server.Handling
import TileRace.Proofs.Server.Idleness
import TileRace.Proofs.Server.Ending
import TileRace.Proofs.Connection.Lifetime
import TileRace.Proofs.Game.Dealing
import TileRace.Proofs.Game.Drawing
import TileRace.Proofs.Game.Prizes
import TileRace.Proofs.Game.Announcements
import TileRace.Proofs.Registry.Ids
import TileRace.Proofs.Registry.Watch
import TileRace.Proofs.Registry.Opening
import TileRace.Proofs.Game.Joining
import TileRace.Proofs.Game.Broadcasts
import TileRace.Proofs.Dictionary.Reading
import TileRace.Proofs.Query.Parameters
import TileRace.Proofs.Shuffle.Positions
import TileRace.Proofs.Client.Command
import TileRace.Proofs.Upgrade.Answers
import TileRace.Proofs.Server.Isolation
