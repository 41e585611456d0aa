import Lox.Main
import Lox.Proofs.Comment
import Lox.Proofs.Display
import Lox.Proofs.FileTree
import Lox.Proofs.Json.Literals
import Lox.Proofs.Json.Lossless
import Lox.Proofs.Layout
import Lox.Proofs.LineEndings
import Lox.Proofs.Lines
import Lox.Proofs.Machine.Safety
import Lox.Proofs.Prompt.Normal
import Lox.Proofs.Recovery
import Lox.Proofs.Reporters
import Lox.Proofs.Restart
import Lox.Proofs.Stability
import Lox.Proofs.TextLines
import Lox.Proofs.TextListing
import Lox.Proofs.Transcript
