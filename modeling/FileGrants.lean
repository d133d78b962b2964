import FileGrants.Main
import FileGrants.Directory
import FileGrants.Service
import FileGrants.Grant.Document
import FileGrants.Proofs.Text.OctetOrder
import FileGrants.Proofs.Grant.Map
import FileGrants.Proofs.Grant.Rows
import FileGrants.Proofs.Grant.Refinement
import FileGrants.Proofs.Grant.Calls
import FileGrants.Proofs.Grant.Activity
import FileGrants.Proofs.Grant.Origin
import FileGrants.Proofs.Grant.Timeless
import FileGrants.Proofs.Grant.Ownership
import FileGrants.Proofs.Grant.Transaction
import FileGrants.Proofs.Grant.Times
import FileGrants.Proofs.Grant.Schema
import FileGrants.Proofs.Grant.Opening
import FileGrants.Proofs.Grant.Reopening
import FileGrants.Proofs.Path.Normal
import FileGrants.Proofs.Path.Joining
import FileGrants.Proofs.FileTree.Route
import FileGrants.Proofs.FileTree.Part
import FileGrants.Proofs.FileTree.Clearing
import FileGrants.Proofs.FileTree.Segments
import FileGrants.Proofs.FileTree.Making
import FileGrants.Proofs.FileTree.Arrival
import FileGrants.Proofs.FileTree.Standing
import FileGrants.Proofs.FileTree.Shape
import FileGrants.Proofs.FileTree.Addition
import FileGrants.Proofs.FileTree.Naming
import FileGrants.Proofs.Uri.Reading
import FileGrants.Proofs.View.Confinement
import FileGrants.Proofs.View.Spelling
import FileGrants.Proofs.Share.Entry
import FileGrants.Proofs.Share.Unsharing
import FileGrants.Proofs.Share.Placing
import FileGrants.Proofs.Share.Deeds
import FileGrants.Proofs.Share.Keeping
import FileGrants.Proofs.Share.Calls
import FileGrants.Proofs.Share.Sharing
import FileGrants.Proofs.Manager.Verification
import FileGrants.Proofs.Manager.Effect
import FileGrants.Proofs.Manager.History
import FileGrants.Proofs.Manager.Turns
import FileGrants.Proofs.Manager.Justification
import FileGrants.Proofs.Manager.Spelling
import FileGrants.Proofs.Manager.Isolation
import FileGrants.Proofs.Text.OctetReading
import FileGrants.Proofs.Text.Escapes
import FileGrants.Proofs.Uri.Parts
import FileGrants.Proofs.Uri.Building
import FileGrants.Proofs.Path.Within
import FileGrants.Proofs.Share.Reception
import FileGrants.Proofs.View.Separation
import FileGrants.Proofs.Service.Restart
import FileGrants.Proofs.CommandLine.Restart
import FileGrants.Proofs.Uri.Grammar
import FileGrants.Proofs.Grant.Upserting
import FileGrants.Proofs.Manager.Persisting
import FileGrants.Proofs.Grant.Temporary
import FileGrants.Proofs.Manager.Issuing
import FileGrants.Proofs.Json.Tokens
import FileGrants.Proofs.Json.Values
import FileGrants.Proofs.Json.Forms
import FileGrants.Proofs.Json.Records
import FileGrants.Proofs.Manager.Checking
import FileGrants.Proofs.Manager.Changing
import FileGrants.Proofs.View.Starting
import FileGrants.Proofs.View.Returning
import FileGrants.Proofs.Text.Cutting
import FileGrants.Proofs.FileTree.Above
import FileGrants.Proofs.View.Directory
import FileGrants.Proofs.Entitlement.Rules
import FileGrants.Proofs.View.Regions
import FileGrants.Proofs.Manager.SelfIssuing
import FileGrants.Proofs.Manager.Demands
import FileGrants.Proofs.Manager.Failures
import FileGrants.Proofs.Service.Refusal
import FileGrants.Proofs.Share.Batching
import FileGrants.Proofs.FileTree.Soundness
import FileGrants.Proofs.FileTree.Descent
import FileGrants.Proofs.FileTree.Leading
import FileGrants.Proofs.FileTree.Replacing
import FileGrants.Proofs.Manager.Agreement
import FileGrants.Proofs.Config.Writing
import FileGrants.Proofs.Config.Keeping
import FileGrants.Proofs.Config.Merging
import FileGrants.Proofs.Config.Updating
import FileGrants.Proofs.Text.Segments
import FileGrants.Proofs.Path.Canonical
import FileGrants.Proofs.Uri.PlainForm
import FileGrants.Proofs.View.Remote
import FileGrants.Proofs.CommandLine.Listing
