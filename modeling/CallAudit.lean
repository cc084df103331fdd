import CallAudit.Main
import CallAudit.Proofs.AddedDeclaration
import CallAudit.Proofs.BareCall
import CallAudit.Proofs.CheckReport
import CallAudit.Proofs.DefinitionFrame
import CallAudit.Proofs.Difference
import CallAudit.Proofs.ExitStatus
import CallAudit.Proofs.FlatTree
import CallAudit.Proofs.LexicalSearch
import CallAudit.Proofs.NameSource
import CallAudit.Proofs.PlainSearch
import CallAudit.Proofs.QualifiedCall
import CallAudit.Proofs.Redeclaration
import CallAudit.Proofs.RelatedQueries
import CallAudit.Proofs.RenamedSearch
import CallAudit.Proofs.RepeatedName
import CallAudit.Proofs.SiblingFunctions
import CallAudit.Proofs.SignatureText
import CallAudit.Proofs.Steps
import CallAudit.Proofs.SummaryText
import CallAudit.Proofs.TableLines
import CallAudit.Proofs.TreeText
