import PhraseScript.CommandLine.Machine
import PhraseScript.Main
import PhraseScript.Proofs.Atomicity
import PhraseScript.Proofs.Batches
import PhraseScript.Proofs.Compounds
import PhraseScript.Proofs.Conversations
import PhraseScript.Proofs.Declarations
import PhraseScript.Proofs.Extensions
import PhraseScript.Proofs.Figures
import PhraseScript.Proofs.FileSystems
import PhraseScript.Proofs.GivenSpans
import PhraseScript.Proofs.Groupings
import PhraseScript.Proofs.Handlers
import PhraseScript.Proofs.Items
import PhraseScript.Proofs.Notations
import PhraseScript.Proofs.Outline
import PhraseScript.Proofs.Phrases
import PhraseScript.Proofs.Recordings
import PhraseScript.Proofs.Registrations
import PhraseScript.Proofs.RuleTexts
import PhraseScript.Proofs.Sources
import PhraseScript.Proofs.Spelling
import PhraseScript.Proofs.Stores
import PhraseScript.Proofs.TreeTexts
import PhraseScript.Proofs.WireForms
