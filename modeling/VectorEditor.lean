import VectorEditor.Canvas.Request
import VectorEditor.Interaction.Event
import VectorEditor.Editor.Request
import VectorEditor.Proofs.Change
import VectorEditor.Proofs.Requests
import VectorEditor.Proofs.Custody
import VectorEditor.Proofs.Snapshots
import VectorEditor.Proofs.LawfulHistory
import VectorEditor.Proofs.Phases
import VectorEditor.Proofs.Drags
import VectorEditor.Proofs.Chains
import VectorEditor.Proofs.Pointer
import VectorEditor.Proofs.Repaints
import VectorEditor.Proofs.Previews
import VectorEditor.Proofs.Visible
import VectorEditor.Proofs.BoundedHistory
import VectorEditor.Proofs.Configuration
import VectorEditor.Proofs.Keys
import VectorEditor.Proofs.Unfinished
import VectorEditor.Proofs.Contract
import VectorEditor.Proofs.Entries
import VectorEditor.Proofs.Picking
import VectorEditor.Proofs.DrawList
import VectorEditor.Proofs.Restacking
import VectorEditor.Proofs.Reselection
import VectorEditor.Proofs.Panning
import VectorEditor.Proofs.Inverses
import VectorEditor.Proofs.Gestures
import VectorEditor.Proofs.Enclosure
import VectorEditor.Proofs.ViewUpdates
import VectorEditor.Proofs.Snapping
import VectorEditor.Proofs.SettingsFile
import VectorEditor.Proofs.ShortestDecimal
import VectorEditor.Proofs.NumberText
import VectorEditor.Proofs.ScriptText
