import Gruel.Usefulness
import Gruel.EnumCodegen
import Gruel.InferenceOrder
import Gruel.CfgLoops
import Gruel.RirMergeSound
import Gruel.Ownership
import Gruel.DropGlue
import Gruel.Comptime
import Gruel.AirCache
import Gruel.Linearity
import Gruel.ComptimeMatch
import Gruel.LetPatterns
import Gruel.ComptimeValue
import Gruel.Spans
import Gruel.Positions
import Gruel.Imports
import Gruel.PreludeVecRuns
import Gruel.CheckedGate
import Gruel.Exclusivity
import Gruel.Names
import Gruel.Never
import Gruel.MatchPatterns
import Gruel.EvalOrder
import Gruel.LazyBodies
import Gruel.CLayout
import Gruel.IntCodegen
import Gruel.MatchDispatch
import Gruel.Params
import Gruel.Vtables
import Gruel.Classify
import Gruel.AirCodec
import Gruel.LayoutSanity
import Gruel.ShadowedMoves
import Gruel.PoolSnapshot
import Gruel.LayoutCache
import Gruel.Signature
import Gruel.Specialize
import Gruel.ComptimeHeap
import Gruel.AnonTypes
import Gruel.Folder
import Gruel.Trivia
import Gruel.Operators
import Gruel.InferenceRuns
import Gruel.LocalSlots
import Gruel.DropNames
import Gruel.UnrollArms
import Gruel.MoveMerge
import Gruel.LineIndex
import Gruel.Decimal
