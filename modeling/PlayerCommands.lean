import PlayerCommands.Main
import PlayerCommands.Proofs.Confirmation
import PlayerCommands.Proofs.Movement
import PlayerCommands.Proofs.Supply
import PlayerCommands.Proofs.Conservation
import PlayerCommands.Proofs.PlainText
import PlayerCommands.Proofs.Protection
import PlayerCommands.Proofs.WrittenExtents
import PlayerCommands.Proofs.CarriedExtents
import PlayerCommands.Proofs.Spelling
import PlayerCommands.Proofs.UnitAnswers
import PlayerCommands.Proofs.ExactNames
import PlayerCommands.Proofs.Registration
import PlayerCommands.Proofs.StoredPhrases
import PlayerCommands.Proofs.TableFaults
import PlayerCommands.Proofs.ChosenVerb
import PlayerCommands.Proofs.Rejections
import PlayerCommands.Proofs.Retention
import PlayerCommands.Proofs.Completion
import PlayerCommands.Proofs.TargetAnswers
import PlayerCommands.Proofs.NamedOptions
import PlayerCommands.Proofs.NormalForms
import PlayerCommands.Proofs.ScannedWords
import PlayerCommands.Proofs.TakingBack
import PlayerCommands.Proofs.JoinedExtents
import PlayerCommands.Proofs.ExtractedQuantities
import PlayerCommands.Proofs.ArgumentBlocks
import PlayerCommands.Proofs.Listing
import PlayerCommands.Proofs.Separators
import PlayerCommands.Proofs.Counts
