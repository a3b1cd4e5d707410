import Secant.Main
import Secant.Environment.Script
import Secant.Proofs.Depth
import Secant.Proofs.Evaluation
import Secant.Proofs.Parts
import Secant.Proofs.FreeVariables
import Secant.Proofs.Agreement
import Secant.Proofs.Spans
import Secant.Proofs.Parser.Prefixes
import Secant.Proofs.Traits
import Secant.Proofs.Answers
import Secant.Proofs.Faults
import Secant.Proofs.Spelling
import Secant.Proofs.Rereading
import Secant.Proofs.WellFormed
import Secant.Proofs.Renaming
import Secant.Proofs.Provenance
import Secant.Proofs.Spacing
import Secant.Proofs.Decimal.Bits
import Secant.Proofs.Decimal.Nearest
import Secant.Proofs.Decimal.ReadBack
import Secant.Proofs.Decimal.Plain
import Secant.Proofs.Commands
import Secant.Proofs.Listing
import Secant.Proofs.Conversation
import Secant.Proofs.Scopes
import Secant.Proofs.Substitution
import Secant.Proofs.Rounds
import Secant.Proofs.Messages
import Secant.Proofs.Reports
import Secant.Proofs.Decimal.Order
import Secant.Proofs.Threshold
import Secant.Proofs.Decimal.Written
import Secant.Proofs.Reentry
import Secant.Proofs.Requests
import Secant.Proofs.Parser.Counting
import Secant.Proofs.Parser.Tracking
import Secant.Proofs.Parser.Calls
import Secant.Proofs.Parser.Pairing
import Secant.Proofs.Numerals
import Secant.Proofs.LetterCase
import Secant.Proofs.Colours
import Secant.Proofs.Arguments
import Secant.Proofs.Histories
