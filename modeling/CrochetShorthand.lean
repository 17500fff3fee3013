import CrochetShorthand.Main
import CrochetShorthand.Unfolding.Meaning
import CrochetShorthand.Proofs.Numeral
import CrochetShorthand.Proofs.Spelling
import CrochetShorthand.Proofs.Balance
import CrochetShorthand.Proofs.Reading
import CrochetShorthand.Proofs.Nesting
import CrochetShorthand.Proofs.Notation
import CrochetShorthand.Proofs.Frames
import CrochetShorthand.Proofs.Grammar
import CrochetShorthand.Proofs.Staging
import CrochetShorthand.Proofs.Splitting
import CrochetShorthand.RunLength.Reading
import CrochetShorthand.Dump.Reading
import CrochetShorthand.Proofs.Display
import CrochetShorthand.Proofs.Interruption
import CrochetShorthand.Proofs.Quoting
import CrochetShorthand.Proofs.Rendering
import CrochetShorthand.Proofs.Brackets
import CrochetShorthand.Proofs.Unrolling
import CrochetShorthand.Proofs.WordSize
import CrochetShorthand.Proofs.NestingLimit
import CrochetShorthand.Proofs.DepthWords
import CrochetShorthand.Proofs.Continuation
import CrochetShorthand.Proofs.Dumping
import CrochetShorthand.Proofs.Sessions
import CrochetShorthand.Proofs.Flattening
import CrochetShorthand.Proofs.Respacing
import CrochetShorthand.Proofs.FirstFault
import CrochetShorthand.Proofs.JsonDumps
import CrochetShorthand.Proofs.Matching
import CrochetShorthand.Proofs.Offsets
import CrochetShorthand.Proofs.PatternSteps
import CrochetShorthand.Proofs.Copies
import CrochetShorthand.Proofs.Flushing
import CrochetShorthand.Proofs.Rewriting
import CrochetShorthand.Proofs.Descent
import CrochetShorthand.Proofs.Overflow
import CrochetShorthand.Proofs.SignedWords
import CrochetShorthand.Proofs.Pulling
import CrochetShorthand.Proofs.Arguments
