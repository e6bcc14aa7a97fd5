import BasilLang.Evaluation.Part
import BasilLang.Main
import BasilLang.Prompt.Highlight
import BasilLang.Proofs.Discipline
import BasilLang.Proofs.Layout
import BasilLang.Proofs.Resolution
import BasilLang.Proofs.RoundTrip
import BasilLang.Proofs.Standing
import BasilLang.Proofs.Termination
import BasilLang.Proofs.Obedience
import BasilLang.Proofs.Constancy
import BasilLang.Proofs.Residue
import BasilLang.Proofs.Integrity
import BasilLang.Proofs.Rerendering
import BasilLang.Proofs.Partition
import BasilLang.Proofs.Unfinished
import BasilLang.Proofs.Blame
import BasilLang.Proofs.Feeding
import BasilLang.Proofs.Entering
import BasilLang.Proofs.Returning
import BasilLang.Proofs.Nesting
import BasilLang.Proofs.Depth
import BasilLang.Proofs.Equality
import BasilLang.Proofs.Yielding
import BasilLang.Proofs.Numerals
import BasilLang.Proofs.Mathematics
import BasilLang.Proofs.Respelling
import BasilLang.Proofs.Colouring
import BasilLang.Proofs.Importing
import BasilLang.Proofs.Flattening
import BasilLang.Proofs.Searching
import BasilLang.Proofs.Faithfulness
import BasilLang.Proofs.PlaceValue
import BasilLang.Proofs.Relocation
import BasilLang.Proofs.Progress
