import Questline.Channel
import Questline.Main
import Questline.Proofs.Store
import Questline.Sharing
import Questline.Proofs.Run
import Questline.Proofs.Transparency
import Questline.Proofs.Thread
import Questline.Proofs.QuestTransition
import Questline.Proofs.Course
import Questline.Proofs.Replica
import Questline.Proofs.Payout
import Questline.Proofs.Tally
import Questline.Proofs.Edit
import Questline.Proofs.Holdings
import Questline.Proofs.WellFormed
import Questline.Proofs.Unfinished
import Questline.Proofs.Offers
import Questline.Proofs.Gating
import Questline.Proofs.Durability
import Questline.Proofs.Walk
import Questline.Proofs.Locking
import Questline.Proofs.Custody
import Questline.Proofs.Dates
import Questline.Proofs.Digits
import Questline.Proofs.InstantText
import Questline.Proofs.Archive
import Questline.Proofs.Faultless
import Questline.Proofs.Choosing
import Questline.Proofs.Variables
import Questline.Proofs.Nesting
import Questline.Proofs.Legibility
import Questline.Proofs.Documents
import Questline.Proofs.Steadiness
import Questline.Proofs.Continuation
import Questline.Proofs.Publication
import Questline.Proofs.Admission
import Questline.Proofs.Portions
import Questline.Proofs.Independence
import Questline.Proofs.Telling
import Questline.Proofs.Filling
import Questline.Proofs.Writing
import Questline.Proofs.Matching
import Questline.Proofs.Levels
import Questline.Proofs.Polling
import Questline.Proofs.Farewell
import Questline.Proofs.Entries
import Questline.Proofs.Shortfalls
import Questline.Proofs.Headway
import Questline.Proofs.Cooldown
import Questline.Proofs.Loading
import Questline.Proofs.Navigation
import Questline.Proofs.Rereading
import Questline.Proofs.Retries
import Questline.Proofs.Counting
import Questline.Proofs.FailedWrites
